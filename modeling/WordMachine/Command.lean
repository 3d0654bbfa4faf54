/-
The three commands: assembling a file, showing the instructions of an image, and showing the tree of
a C-flat program. A command takes its arguments and a directory, and gives what it prints, its exit
code and the directory after it.
-/
import WordMachine.Assembly.File
import WordMachine.Cflat.Tree

namespace WordMachine.Command

/-- What running a command leads to. -/
structure Outcome where
  code : Nat
  out : String
  err : String
  directory : Directory
  deriving Repr, DecidableEq

/-! ## Addresses -/

/-- Why a text is not an address. -/
inductive AddressFault where
  | empty
  | invalidDigit
  | tooLarge
  deriving Repr, DecidableEq

def AddressFault.message : AddressFault → String
  | .empty => "cannot parse integer from empty string"
  | .invalidDigit => "invalid digit found in string"
  | .tooLarge => "number too large to fit in target type"

/-- Reads the digits of an address after `value`. The first character that is no digit, or that makes
the number too large, is at fault. -/
def readAddressDigits (base value : Nat) : List Char → Except AddressFault Address
  | [] => .ok value.toUInt32
  | c :: cs =>
    match Text.digitValue? base c with
    | none => .error .invalidDigit
    | some d =>
      if value * base + d < UInt32.size then readAddressDigits base (value * base + d) cs
      else .error .tooLarge

/-- Reads digits after an optional plus sign. -/
def readUnsigned (base : Nat) (cs : List Char) : Except AddressFault Address :=
  match cs with
  | [] => .error .empty
  | ['+'] => .error .invalidDigit
  | '+' :: digits => readAddressDigits base 0 digits
  | digits => readAddressDigits base 0 digits

/-- Reads an address in decimal or, after `0x`, in hexadecimal digits. -/
def readAddress (s : String) : Except AddressFault Address :=
  match s.toList with
  | '0' :: 'x' :: digits => readUnsigned 16 digits
  | '0' :: 'X' :: digits => readUnsigned 16 digits
  | digits => readUnsigned 10 digits

/-! ## Arguments -/

/-- Why the arguments of a command are refused. -/
inductive UsageFault where
  | badOrigin (value : String) (fault : AddressFault)
  | valueMissing (option : String)
  | unexpected (argument : String)
  | argumentMissing
  deriving Repr, DecidableEq

def UsageFault.message : UsageFault → String
  | .badOrigin value fault =>
    "invalid value '" ++ value ++ "' for '--origin <ORIGIN>': '" ++ value ++
      "' is not a valid address: " ++ fault.message
  | .valueMissing option => "a value is required for '" ++ option ++ "' but none was supplied"
  | .unexpected argument => "unexpected argument '" ++ argument ++ "' found"
  | .argumentMissing => "the following required arguments were not provided:"

/-- An argument that is an option, with the value after its equals sign, or a plain one. -/
inductive Argument where
  | option (name : String) (value : Option String)
  | plain (text : String)
  deriving Repr, DecidableEq

/-- Takes an argument apart. -/
def Argument.read (s : String) : Argument :=
  match s.toList with
  | '-' :: '-' :: rest =>
    let name := "--" ++ String.ofList (rest.takeWhile (· ≠ '='))
    match rest.dropWhile (· ≠ '=') with
    | _ :: value => .option name (some (String.ofList value))
    | [] => .option name none
  | '-' :: letter :: rest =>
    let name := String.ofList ['-', letter]
    match rest with
    | [] => .option name none
    | '=' :: value => .option name (some (String.ofList value))
    | value => .option name (some (String.ofList value))
  | _ => .plain s

/-- What the assembler is asked for. -/
structure AssembleRequest where
  input : Option String := none
  output : Option String := none
  origin : Address := 0
  list : Bool := false
  deriving Repr, DecidableEq

namespace AssembleRequest

/-- The request with the value of an option. -/
def set (r : AssembleRequest) (name value : String) : Except UsageFault AssembleRequest :=
  if name = "-o" ∨ name = "--output" then .ok { r with output := some value }
  else if name = "--origin" then
    match readAddress value with
    | .ok origin => .ok { r with origin }
    | .error fault => .error (.badOrigin value fault)
  else .error (.unexpected name)

/-- Does the option have a value? -/
def takesValue (name : String) : Bool := ["-o", "--output", "--origin"].contains name

/-- Reads the arguments after those that made `r`. -/
def read (r : AssembleRequest) : List String → Except UsageFault AssembleRequest
  | [] => .ok r
  | argument :: rest =>
    match Argument.read argument with
    | .plain text =>
      if r.input.isSome then .error (.unexpected text) else read { r with input := some text } rest
    | .option name (some value) => do (← r.set name value).read rest
    | .option name none =>
      if name = "--list" then read { r with list := true } rest
      else if takesValue name then
        match rest with
        | value :: rest => do (← r.set name value).read rest
        | [] => .error (.valueMissing name)
      else .error (.unexpected name)

end AssembleRequest

/-- What the tree printer is asked for. -/
structure TreeRequest where
  input : Option String := none
  tokens : Bool := false
  options : Cflat.Options := {}
  deriving Repr, DecidableEq

/-- Reads the arguments after those that made `r`. -/
def TreeRequest.read (r : TreeRequest) : List String → Except UsageFault TreeRequest
  | [] => .ok r
  | argument :: rest =>
    if argument = "--tokens" then read { r with tokens := true } rest
    else if argument = "--digraphs" then
      read { r with options := { r.options with digraphs := true } } rest
    else if argument = "--trigraphs" then
      read { r with options := { r.options with trigraphs := true } } rest
    else if argument = "--allow-incompatibles" then
      read { r with options := { r.options with lenient := true } } rest
    else
      match Argument.read argument with
      | .plain text =>
        if r.input.isSome then .error (.unexpected text)
        else read { r with input := some text } rest
      | .option name _ => .error (.unexpected name)

/-! ## Commands -/

/-- Arguments that are refused. -/
def refuse (d : Directory) (fault : UsageFault) : Outcome :=
  ⟨2, "", "error: " ++ fault.message ++ "\n", d⟩

/-- A failure that is reported by a text. -/
def fail (d : Directory) (out message : String) : Outcome := ⟨1, out, message ++ "\n", d⟩

/-- Assembles a file. The listing is printed before the image is written. -/
def assemble (arguments : List String) (d : Directory) : Outcome :=
  match AssembleRequest.read {} arguments with
  | .error fault => refuse d fault
  | .ok { input := some input, output := some output, origin, list } =>
    match Assembly.assembleInput d input origin with
    | .error e => fail d "" e.message
    | .ok program =>
      let out := if list then program.listing else ""
      match Assembly.storeImage d output program.image with
      | (.error e, after) => fail after out e.message
      | (.ok (), after) => ⟨0, out, "", after⟩
  | .ok _ => refuse d .argumentMissing

/-- Shows the instructions of an image. -/
def disassemble (arguments : List String) (d : Directory) : Outcome :=
  match arguments with
  | [input] =>
    match Assembly.loadImage d input with
    | .error e => fail d "" ("error: " ++ e.message)
    | .ok image =>
      let title := "** origin " ++ Word.hex image.origin ++ ", " ++
        toString image.stackWords.toNat ++ " words of stack, " ++ toString image.bytes.length ++
        " bytes of program\n"
      ⟨0, title ++ image.disassembly, "", d⟩
  | [] => refuse d .argumentMissing
  | _ :: extra :: _ => refuse d (.unexpected extra)

/-- Shows the tree or the tokens of a C-flat program. -/
def showTree (arguments : List String) (d : Directory) : Outcome :=
  match TreeRequest.read {} arguments with
  | .error fault => refuse d fault
  | .ok { input := some input, tokens, options } =>
    match d.readText input with
    | .error fault => fail d "" ("failed to read " ++ input ++ ": " ++ fault.message)
    | .ok source =>
      if tokens then
        match Cflat.scanSource options source with
        | .error e => fail d "" e.message
        | .ok statements => ⟨0, String.join (statements.map (·.render ++ "\n")), "", d⟩
      else
        match Cflat.parseSource options source with
        | .error e => fail d "" e.message
        | .ok tree => ⟨0, tree.render, "", d⟩
  | .ok _ => refuse d .argumentMissing

end WordMachine.Command
