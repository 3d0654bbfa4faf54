/-
Headers of functions: at most two annotations, a return type, a name, and parameters in parentheses, each of them a
type, stars and a name. What is written so is read back as the function with exactly these parameters.
-/
import WordMachine.Proofs.Cflat.Declarations

namespace WordMachine.Cflat

/-! ## The grammar -/

/-- The types of the values that functions are given and return. -/
inductive PassedType where
  | nothing
  | int
  | float
  deriving Repr, DecidableEq

namespace PassedType

def word : PassedType → Token
  | .nothing => "void"
  | .int => "int"
  | .float => "float"

def valueType : PassedType → ValueType
  | .nothing => .nothing
  | .int => .int
  | .float => .float

end PassedType

/-- How a parameter is written. -/
structure Parameter where
  type : PassedType
  stars : Nat
  name : Token
  isIdentifier_name : name.isIdentifier = true

namespace Parameter

def tokens (p : Parameter) : List Token := p.type.word :: (List.replicate p.stars "*" ++ [p.name])

/-- The parameter in a tree. Its stars are counted as far as their number fits in 32 bits. -/
def head (p : Parameter) : Head := .parameter p.name p.type.valueType (min p.stars (2 ^ 32 - 1))

/-- The parameters with commas between them. -/
def list (parameters : List Parameter) : List Token := [","].intercalate (parameters.map tokens)

end Parameter

/-- How a function is written, up to its parameters. -/
structure FunctionHeader where
  annotations : List Token
  returns : PassedType
  name : Token
  length_le : annotations.length ≤ 2
  annotations_mem : ∀ t ∈ annotations, t ∈ Token.functionAnnotations
  isIdentifier_name : name.isIdentifier = true
  isOperator_name : name.isOperator = false

namespace FunctionHeader

/-- The words before the parentheses. -/
def words (h : FunctionHeader) : List Token := h.annotations ++ [h.returns.word, h.name]

/-- The header with the given tokens in its parentheses. -/
def tokens (h : FunctionHeader) (inner : List Token) : List Token := h.words ++ "(" :: (inner ++ [")"])

def tree (h : FunctionHeader) (line : Nat) (parameters : List Parameter) : Node :=
  .apply (.function h.name h.returns.valueType) line (parameters.map fun p => .leaf p.head line)

end FunctionHeader

/-! ## Parameters -/

namespace PassedType

theorem usableType_word (t : PassedType) : Form.usableType t.word = .ok t.valueType := by
  cases t <;> rfl

theorem word_mem (t : PassedType) : t.word ∈ Token.functionTypes := by
  cases t <;> decide

end PassedType

theorem ne_of_isIdentifier {t : Token} (h : t.isIdentifier = true) : t ≠ "(" ∧ t ≠ ")" ∧ t ≠ "," ∧ t ≠ "*" := by
  refine ⟨?_, ?_, ?_, ?_⟩ <;> rintro rfl <;> exact absurd h (by decide)

namespace Parameter

theorem parameter_tokens (function : Token) (p : Parameter) : Form.parameter function p.tokens = .ok p.head := by
  have hstar : p.name ≠ "*" := (ne_of_isIdentifier p.isIdentifier_name).2.2.2
  refine bind_eq_ok.2 ⟨p.type.valueType, p.type.usableType_word, ?_⟩
  rw [dropWhile_stars [] hstar, takeWhile_stars [] hstar]
  dsimp only
  rw [if_pos ⟨rfl, p.isIdentifier_name⟩, List.length_replicate, depthOfStars_eq]
  rfl

/-- No token of a parameter is a parenthesis or a comma. -/
theorem balanced_tokens (p : Parameter) : Balanced (· ≠ ",") p.tokens := by
  have hwords : ∀ t ∈ Token.functionTypes, t ≠ "(" ∧ t ≠ ")" ∧ t ≠ "," := by decide
  obtain ⟨hopen, hclose, hcomma⟩ := hwords _ p.type.word_mem
  obtain ⟨hopen', hclose', hcomma', -⟩ := ne_of_isIdentifier p.isIdentifier_name
  have hstars (stars : Nat) : Balanced (· ≠ ",") (List.replicate stars "*" ++ [p.name]) := by
    induction stars with
    | zero => exact .token hopen' hclose' hcomma' .nil
    | succ stars ih => exact .token (by decide) (by decide) (by decide) ih
  exact .token hopen hclose hcomma (hstars p.stars)

theorem balanced_list (parameters : List Parameter) : Balanced (fun _ => True) (list parameters) := by
  refine Written.balanced_intercalate fun ts hts => ?_
  obtain ⟨p, -, rfl⟩ := List.mem_map.1 hts
  exact p.balanced_tokens.mono fun _ _ => trivial

/-- A list of parameters that is not empty is longer than the word `void`. -/
theorem one_lt_length_list (p : Parameter) (ps : List Parameter) : 1 < (list (p :: ps)).length := by
  rw [list, List.map_cons, intercalate_eq_separated, tokens]
  simp only [List.length_append, List.length_cons]
  omega

theorem parameters_list (function : Token) (parameters : List Parameter) :
    Form.parameters function (list parameters) = .ok (parameters.map head) := by
  cases parameters with
  | nil => rfl
  | cons p ps =>
    have hlength := one_lt_length_list p ps
    rw [Form.parameters, if_neg]
    · have hparts : parts "," (list (p :: ps)) = (p :: ps).map tokens := by
        refine parts_intercalate (by decide) (by decide) fun ts hts => ?_
        obtain ⟨q, -, rfl⟩ := List.mem_map.1 (show ts ∈ (p :: ps).map tokens from hts)
        exact q.balanced_tokens
      rw [hparts, mapM_eq_ok, List.forall₂_map_left_iff, List.forall₂_map_right_iff, List.forall₂_same]
      exact fun q _ => q.parameter_tokens function
    · rintro (hempty | hvoid)
      · rw [List.isEmpty_iff.1 hempty] at hlength
        exact absurd hlength (by decide)
      · rw [hvoid] at hlength
        exact absurd hlength (by decide)

end Parameter

/-! ## Functions -/

namespace FunctionHeader

variable (h : FunctionHeader)

theorem isCallee_name : h.name.isCallee = true := by
  rw [Token.isCallee, h.isIdentifier_name, h.isOperator_name]
  rfl

theorem ne_open_of_mem_words {t : Token} (ht : t ∈ h.words) : t ≠ "(" := by
  have hannotations : ∀ t ∈ Token.functionAnnotations, t ≠ "(" := by decide
  have htypes : ∀ t ∈ Token.functionTypes, t ≠ "(" := by decide
  rw [words, List.mem_append, List.mem_cons, List.mem_singleton] at ht
  rcases ht with ht | rfl | rfl
  · exact hannotations t (h.annotations_mem t ht)
  · exact htypes _ h.returns.word_mem
  · exact (ne_of_isIdentifier h.isIdentifier_name).1

/-- The header is recognised by its words, whatever is in its parentheses. -/
theorem function?_tokens {inner : List Token} (hinner : Balanced (fun _ => True) inner) :
    Form.function? (h.tokens inner) = some (Form.function h.returns.word h.name inner) := by
  have hgroup : wholeGroup? (inner ++ [")"]) = some inner := wholeGroup?_eq_some.2 (hinner.closeGroup?_close [])
  have hwords : ∀ t ∈ h.words, decide (t ≠ "(") = true := fun t ht => decide_eq_true (h.ne_open_of_mem_words ht)
  have hbefore : (h.tokens inner).takeWhile (· ≠ "(") = h.words := by
    rw [tokens, List.takeWhile_append_of_pos hwords, List.takeWhile_cons_of_neg (by simp), List.append_nil]
  have hafter : (h.tokens inner).dropWhile (· ≠ "(") = "(" :: (inner ++ [")"]) := by
    rw [tokens, List.dropWhile_append_of_pos hwords, List.dropWhile_cons_of_neg (by simp)]
  have hreverse : h.words.reverse = h.name :: h.returns.word :: h.annotations.reverse := by
    rw [words, List.reverse_append]
    rfl
  rw [Form.function?, hbefore, hafter, hreverse, List.tail_cons, hgroup]
  dsimp only
  refine if_pos ⟨?_, ?_, List.contains_iff_mem.2 h.returns.word_mem, h.isCallee_name⟩
  · rw [List.length_reverse]
    exact h.length_le
  · rw [List.all_reverse, List.all_eq_true]
    exact fun t ht => List.contains_iff_mem.2 (h.annotations_mem t ht)

/-- No loop is written like a function. -/
theorem exists_tokens_eq_cons (inner : List Token) :
    ∃ first rest, h.tokens inner = first :: rest ∧ first ≠ "for" := by
  have hannotations : ∀ t ∈ Token.functionAnnotations, t ≠ "for" := by decide
  have htypes : ∀ t ∈ Token.functionTypes, t ≠ "for" := by decide
  rw [tokens, words]
  cases hwords : h.annotations with
  | nil => exact ⟨_, _, rfl, htypes _ h.returns.word_mem⟩
  | cons t ts => exact ⟨t, _, rfl, hannotations t (h.annotations_mem t (hwords ▸ List.mem_cons_self))⟩

theorem ofTokens_of_parameters {inner : List Token} {parameters : List Parameter} (line : Nat)
    (hinner : Balanced (fun _ => True) inner)
    (hparameters : Form.parameters h.name inner = .ok (parameters.map Parameter.head)) :
    Node.ofTokens line (h.tokens inner) = .ok (h.tree line parameters) := by
  have hfunction : Form.function h.returns.word h.name inner =
      .simple (.function h.name h.returns.valueType) (parameters.map Parameter.head) := by
    rw [Form.function, h.returns.usableType_word, hparameters]
    rfl
  have hform : Form.ofTokens (h.tokens inner) =
      .simple (.function h.name h.returns.valueType) (parameters.map Parameter.head) := by
    have hread := h.function?_tokens hinner
    obtain ⟨first, rest, htokens, hfor⟩ := h.exists_tokens_eq_cons inner
    rw [htokens] at hread ⊢
    rw [Form.ofTokens, if_neg hfor, hread, hfunction]
    rfl
  rw [Node.ofTokens, hform, Form.build, List.map_map]
  rfl

end FunctionHeader

/-- A function that is written with any annotations, return type, name and parameters is read as the function of this
type and name with these parameters, in their order. Without parameters, nothing or `void` may stand in its
parentheses. -/
theorem ofTokens_functionHeader (line : Nat) (h : FunctionHeader) :
    (∀ parameters : List Parameter,
      Node.ofTokens line (h.tokens (Parameter.list parameters)) = .ok (h.tree line parameters)) ∧
      Node.ofTokens line (h.tokens []) = .ok (h.tree line []) ∧
      Node.ofTokens line (h.tokens ["void"]) = .ok (h.tree line []) := by
  refine ⟨fun parameters => ?_, ?_, ?_⟩
  · exact h.ofTokens_of_parameters line (Parameter.balanced_list parameters) (Parameter.parameters_list _ parameters)
  · exact h.ofTokens_of_parameters line .nil rfl
  · exact h.ofTokens_of_parameters line (.token (by decide) (by decide) trivial .nil) rfl

/-- Two annotations, a parameter with stars, and one of type `void`. -/
theorem ofTokens_functionHeader_stars :
    Node.ofTokens 4 ["static", "inline", "void", "f", "(", "int", "*", "*", "a", ",", "void", "b", ")"] =
      .ok (.apply (.function "f" .nothing) 4
        [.leaf (.parameter "a" .int 2) 4, .leaf (.parameter "b" .nothing 0) 4]) := by
  let header : FunctionHeader := ⟨["static", "inline"], .nothing, "f", by decide, by decide, by decide, by decide⟩
  let parameters : List Parameter := [⟨.int, 2, "a", by decide⟩, ⟨.nothing, 0, "b", by decide⟩]
  exact (ofTokens_functionHeader 4 header).1 parameters

end WordMachine.Cflat
