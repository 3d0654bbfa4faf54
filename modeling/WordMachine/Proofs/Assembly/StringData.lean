/-
String data. What stands between the quotes of a string may be any text without a quote right before a semicolon: it is
kept whole when the source is divided into statements, and when the payload is cut out of its statement again. In the
program it stands at the address of its name, in UTF-8, with a zero byte after it and zeros up to the next word.
-/
import WordMachine.Proofs.Assembly.SkipJump
import WordMachine.Proofs.Assembly.Splitting

namespace WordMachine.Assembly

/-- A name that is one word outside of literals and comments. -/
structure IsPlainName (name : String) : Prop where
  ne_nil : name.toList ≠ []
  chars : ∀ c ∈ name.toList, Text.isBlank c = false ∧ c ∉ [',', '"', ';', '#']

/-- A text that ends no literal before its end. -/
def IsLiteralText (text : String) : Prop := ¬['"', ';'] <:+: text.toList

instance (text : String) : Decidable (IsLiteralText text) :=
  inferInstanceAs (Decidable (¬['"', ';'] <:+: text.toList))

theorem IsPlainName.isOrdinary {name : String} (h : IsPlainName name) : ∀ c ∈ name.toList, IsOrdinary c := by
  intro c hc
  obtain ⟨hblank, hne⟩ := h.chars c hc
  refine ⟨fun h => ?_, fun h => hne (List.mem_cons_of_mem _ h)⟩
  rw [hblank] at h
  cases h

/-- The declaration of a string. -/
def stringText (name text : String) : String := "STRING " ++ name ++ " \"" ++ text ++ "\""

/-- A data section with the declaration of a string. -/
def stringSource (name text : String) : String := ".DATA; " ++ stringText name text ++ ";"

/-! ## Dividing the source -/

section

variable {line start : Nat} {finished : List SourceLine}

/-- In a literal every character is kept, but for a semicolon after a quote. -/
theorem step_literal {s : Splitter} {c : Char} (hmode : s.mode.inLiteral = true) (htext : s.text ≠ "")
    (hc : s.mode = .quote → c ≠ ';') :
    ∃ line', s.step c =
      { s with mode := if c = '"' then .quote else .literal, line := line', text := s.text.push c } := by
  have hkept : s.mode.role c = .kept ∧ s.mode.after c = if c = '"' then .quote else .literal := by
    cases hs : s.mode with
    | normal => simp [hs, Mode.inLiteral] at hmode
    | comment => simp [hs, Mode.inLiteral] at hmode
    | literal => exact ⟨rfl, rfl⟩
    | quote => simp [Mode.role, Mode.after, hc hs]
  rw [Splitter.step_eq, hkept.1, hkept.2, Splitter.take, Splitter.push_eq (.inr htext), if_neg htext]
  exact ⟨_, rfl⟩

/-- A text without a quote right before a semicolon is kept whole in a literal. -/
theorem foldl_literal {cs : List Char} {mode : Mode} {text : String} (hmode : mode.inLiteral = true)
    (htext : text ≠ "") (hcs : ¬['"', ';'] <:+: cs) (hfirst : mode = .quote → cs.head? ≠ some ';') :
    ∃ mode' line', mode'.inLiteral = true ∧ cs.foldl Splitter.step ⟨mode, line, text, start, finished⟩ =
      ⟨mode', line', text ++ String.ofList cs, start, finished⟩ := by
  induction cs generalizing mode line text with
  | nil => exact ⟨mode, line, hmode, by simp⟩
  | cons c cs ih =>
    obtain ⟨line', hstep⟩ := step_literal (s := ⟨mode, line, text, start, finished⟩) hmode htext
      fun hquote hc => hfirst hquote (congrArg some hc)
    have hrest : ¬['"', ';'] <:+: cs := fun h => hcs (h.trans (List.suffix_cons c cs).isInfix)
    have hnext : (if c = '"' then Mode.quote else .literal) = .quote → cs.head? ≠ some ';' := by
      intro hquote hsemicolon
      obtain ⟨after, rfl⟩ := List.head?_eq_some_iff.1 hsemicolon
      by_cases hc : c = '"'
      · -- the quote and the semicolon would be the pair that is excluded
        subst hc
        exact hcs (List.prefix_append ['"', ';'] after).isInfix
      · rw [if_neg hc] at hquote
        cases hquote
    have hliteral : (if c = '"' then Mode.quote else .literal).inLiteral = true := by split <;> rfl
    obtain ⟨mode', line'', hmode', hrun⟩ := @ih line' _ (text.push c) hliteral (by simp) hrest hnext
    refine ⟨mode', line'', hmode', ?_⟩
    rw [List.foldl_cons, hstep, hrun, push_append_ofList]

end

theorem toList_stringSource (name text : String) : (stringSource name text).toList =
    ".DATA; STRING ".toList ++ (name.toList ++ (" \"".toList ++ (text.toList ++ "\";".toList))) := by
  simp [stringSource, stringText]

section

variable {line start : Nat} {finished : List SourceLine} {text : String}

/-- A quote after a blank starts a literal. -/
theorem foldl_openQuote (htext : text ≠ "") :
    " \"".toList.foldl Splitter.step ⟨.normal, line, text, start, finished⟩ =
      ⟨.literal, line, text ++ " \"", start, finished⟩ := by
  have hspace : Splitter.step ⟨.normal, line, text, start, finished⟩ ' ' =
      ⟨.normal, line, text.push ' ', start, finished⟩ := by
    rw [(isOrdinary_of_isPlain rfl).step rfl, Splitter.push_eq (.inr htext)]
    dsimp only
    rw [if_neg htext]
  have hquote : Splitter.step ⟨.normal, line, text.push ' ', start, finished⟩ '"' =
      ⟨.literal, line, (text.push ' ').push '"', start, finished⟩ := by
    simp [Splitter.step, Splitter.read, Splitter.push]
  have happend : (text.push ' ').push '"' = text ++ " \"" := by
    apply String.toList_inj.1
    simp
  rw [← happend, ← hquote, ← hspace]
  rfl

/-- A quote with a semicolon after it ends a literal and its statement. -/
theorem foldl_closeQuote {mode : Mode} (hmode : mode.inLiteral = true) (htext : text ≠ "") :
    ∃ line', "\";".toList.foldl Splitter.step ⟨mode, line, text, start, finished⟩ =
      ⟨.normal, line', "", start, finished ++ [⟨start, text ++ "\""⟩]⟩ := by
  obtain ⟨line', hquote⟩ := @step_literal ⟨mode, line, text, start, finished⟩ '"' hmode htext fun _ => by decide
  refine ⟨line', ?_⟩
  have happend : text.push '"' = text ++ "\"" := by
    apply String.toList_inj.1
    simp
  show Splitter.step (Splitter.step ⟨mode, line, text, start, finished⟩ '"') ';' = _
  rw [hquote, ← happend]
  simp [Splitter.step, Splitter.read, Splitter.endStatement]

end

/-- The source is divided into the header and the declaration. -/
theorem foldl_stringSource {name text : String} (hname : IsPlainName name) (htext : IsLiteralText text) :
    ∃ line, (stringSource name text).toList.foldl Splitter.step {} =
      ⟨.normal, line, "", 1, [⟨1, ".DATA"⟩, ⟨1, stringText name text⟩]⟩ := by
  have hstart : ".DATA; STRING ".toList.foldl Splitter.step {} = ⟨.normal, 1, "STRING ", 1, [⟨1, ".DATA"⟩]⟩ := by
    decide +kernel
  obtain ⟨mode, line, hmode, hliteral⟩ := @foldl_literal 1 1 [⟨1, ".DATA"⟩] text.toList .literal
    ("STRING " ++ name ++ " \"") rfl (by simp) htext fun h => by cases h
  rw [String.ofList_toList] at hliteral
  obtain ⟨line', hend⟩ := @foldl_closeQuote line 1 [⟨1, ".DATA"⟩] ("STRING " ++ name ++ " \"" ++ text) mode hmode
    (by simp)
  refine ⟨line', ?_⟩
  rw [toList_stringSource, List.foldl_append, hstart, List.foldl_append, foldl_ordinary hname.isOrdinary (by simp),
    String.ofList_toList, List.foldl_append, foldl_openQuote (by simp), List.foldl_append, hliteral, hend]
  rfl

/-- Statements that are finished stay so. -/
theorem finished_step (s : Splitter) (c : Char) : ∃ more, (s.step c).finished = s.finished ++ more := by
  rw [Splitter.step_eq]
  show ∃ more, (s.take c (s.mode.role c)).finished = s.finished ++ more
  cases s.mode.role c with
  | dropped => exact ⟨[], (List.append_nil _).symm⟩
  | kept => exact ⟨[], (s.finished_push c).trans (List.append_nil _).symm⟩
  | ending =>
    show ∃ more, s.endStatement.finished = s.finished ++ more
    unfold Splitter.endStatement
    split
    · exact ⟨[], (List.append_nil _).symm⟩
    · exact ⟨_, rfl⟩

theorem finished_foldl (cs : List Char) (s : Splitter) :
    ∃ more, (cs.foldl Splitter.step s).finished = s.finished ++ more := by
  induction cs generalizing s with
  | nil => exact ⟨[], (List.append_nil _).symm⟩
  | cons c cs ih =>
    obtain ⟨more, hmore⟩ := finished_step s c
    obtain ⟨more', hmore'⟩ := ih (s.step c)
    exact ⟨more ++ more', by rw [List.foldl_cons, hmore', hmore, List.append_assoc]⟩

/-- Whatever stands after it, the declaration is divided from the rest. -/
theorem exists_lines {name text rest : String} {lines : List SourceLine} (hname : IsPlainName name)
    (htext : IsLiteralText text) (h : splitSource (stringSource name text ++ rest) = .ok lines) :
    ∃ more, lines = ⟨1, ".DATA"⟩ :: ⟨1, stringText name text⟩ :: more := by
  obtain ⟨line, hrun⟩ := foldl_stringSource hname htext
  rw [splitSource, String.toList_append, List.foldl_append, hrun] at h
  obtain ⟨more, hmore⟩ :=
    finished_foldl rest.toList ⟨.normal, line, "", 1, [⟨1, ".DATA"⟩, ⟨1, stringText name text⟩]⟩
  obtain ⟨-, rfl⟩ := finish_eq_ok.1 h
  exact ⟨more, hmore⟩

theorem splitSource_stringSource {name text : String} (hname : IsPlainName name) (htext : IsLiteralText text) :
    splitSource (stringSource name text) = .ok [⟨1, ".DATA"⟩, ⟨1, stringText name text⟩] := by
  obtain ⟨line, hrun⟩ := foldl_stringSource hname htext
  rw [splitSource, hrun]
  rfl

/-! ## Reading the declaration -/

theorem toList_stringText (name text : String) : (stringText name text).toList =
    "STRING".toList ++ ' ' :: (name.toList ++ ' ' :: '"' :: (text.toList ++ ['"'])) := by
  simp [stringText]

theorem IsPlainName.not_separator {name : String} (h : IsPlainName name) :
    ∀ c ∈ name.toList, isSeparator c = false := by
  intro c hc
  obtain ⟨hblank, hne⟩ := h.chars c hc
  simp only [List.mem_cons, List.not_mem_nil, or_false, not_or] at hne
  have hspace : c ≠ ' ' := by
    rintro rfl
    revert hblank
    decide
  have htab : c ≠ '\t' := by
    rintro rfl
    revert hblank
    decide
  simp [isSeparator, hspace, htab, hne.1]

/-- The first words of a declaration are its type and its name, whatever the text is divided into. -/
theorem exists_words {name : String} (hname : IsPlainName name) (text : String) :
    ∃ words, SourceLine.words ⟨1, stringText name text⟩ = "STRING" :: name :: words := by
  have hall : "STRING".toList.all (!isSeparator ·) = true := by decide
  have htype : ∀ c ∈ "STRING".toList, isSeparator c = false := fun c hc => by
    simpa using List.all_eq_true.1 hall c hc
  refine ⟨(splitWords (' ' :: '"' :: (text.toList ++ ['"']))).map String.ofList, ?_⟩
  rw [SourceLine.words, toList_stringText, splitWords_append rfl _ _ (by simp) htype, splitWords_separator rfl,
    splitWords_append rfl _ _ hname.ne_nil hname.not_separator, List.map_cons, List.map_cons, String.ofList_toList,
    String.ofList_toList]

theorem IsPlainName.quote_not_mem {name : String} (h : IsPlainName name) : '"' ∉ name.toList :=
  fun hc => (h.chars _ hc).2 (by simp)

/-- The text is cut out at the first and the last quote. -/
theorem quotedPart?_stringText {name : String} (hname : IsPlainName name) (text : String) :
    quotedPart? (stringText name text).toList = some text.toList := by
  have hbefore : ∀ c ∈ "STRING ".toList ++ name.toList ++ [' '], decide (c ≠ '"') = true := by
    intro c hc
    rw [decide_eq_true_eq]
    rintro rfl
    simp [hname.quote_not_mem] at hc
  have hchars : (stringText name text).toList =
      ("STRING ".toList ++ name.toList ++ [' ']) ++ '"' :: (text.toList ++ ['"']) := by
    simp [stringText]
  have hdrop : (stringText name text).toList.dropWhile (· ≠ '"') = '"' :: (text.toList ++ ['"']) := by
    rw [hchars, List.dropWhile_append_of_pos hbefore]
    rfl
  rw [quotedPart?, hdrop]
  simp

/-- In a data section, the declaration is read as its text in UTF-8 under its name. -/
theorem readLine_stringText {name : String} (hname : IsPlainName name) (text : String) :
    readLine .data ⟨1, stringText name text⟩ = .ok (some (.data (.ofText name) (.text text.toUTF8.toList))) := by
  obtain ⟨words, hwords⟩ := exists_words hname text
  have hat : (stringText name text).startsWith "@" = false := by
    rw [String.startsWith_string_eq_false_iff, toList_stringText]
    simp
  have hquote : name.startsWith "\"" = false := by
    rw [String.startsWith_string_eq_false_iff]
    intro hquoted
    obtain ⟨cs, hcs⟩ := hquoted
    exact hname.quote_not_mem (by rw [← hcs]; simp)
  have hpayload (source : SourceLine) (h : source.text = stringText name text) :
      readPayload source "STRING" words = .ok (.text text.toUTF8.toList) := by
    have htype : Text.upper "STRING" = "STRING" := by decide +kernel
    rw [readPayload, htype, if_pos rfl, h, quotedPart?_stringText hname]
    dsimp only
    rw [String.ofList_toList]
  rw [readLine, hwords]
  dsimp only
  rw [hat, show ("STRING".startsWith ".") = false by decide +kernel, if_neg Bool.false_ne_true,
    if_neg Bool.false_ne_true, if_pos rfl, readData, hquote, if_neg Bool.false_ne_true, hpayload _ rfl]
  rfl

/-- The statements of the header and the declaration. -/
def stringStatements (name text : String) : List Statement :=
  [⟨1, .header .data⟩, ⟨1, .data (.ofText name) (.text text.toUTF8.toList)⟩]

theorem readFrom_cons_of_readLine {p q : Position} {source : SourceLine} {kind : StatementKind}
    (hline : readLine p.current source = .ok (some kind)) (hnext : p.next kind = .ok q) (rest : List SourceLine) :
    readFrom p (source :: rest) = (readFrom q rest).map (⟨source.line, kind⟩ :: ·) := by
  rw [readFrom, hline]
  show (atLine source.line (p.next kind) >>= _) = _
  rw [hnext]
  show (readFrom q rest >>= _) = _
  cases readFrom q rest <;> rfl

theorem readProgram_stringLines {name : String} (hname : IsPlainName name) (text : String) (more : List SourceLine) :
    readProgram (⟨1, ".DATA"⟩ :: ⟨1, stringText name text⟩ :: more) =
      (readFrom ⟨.data, true, false⟩ more).map (stringStatements name text ++ ·) := by
  have hheader : readLine .code ⟨1, ".DATA"⟩ = .ok (some (.header .data)) := by decide +kernel
  have hdata := @readLine_stringText name hname text
  rw [readProgram, @readFrom_cons_of_readLine {} ⟨.data, true, false⟩ _ _ hheader rfl,
    @readFrom_cons_of_readLine ⟨.data, true, false⟩ ⟨.data, true, false⟩ _ _ hdata rfl]
  cases readFrom ⟨.data, true, false⟩ more <;> rfl

/-! ## The program -/

/-- The text in UTF-8 with a zero byte after it and `k` zeros more. -/
def stringBytes (text : String) (k : Nat) : List UInt8 := text.toUTF8.toList ++ 0 :: List.replicate k 0

/-- These are whole words, with fewer zeros than would make up one of them. -/
structure FillsWords (text : String) (k : Nat) : Prop where
  lt_four : k < 4
  four_dvd : 4 ∣ (stringBytes text k).length

namespace FillsWords

theorem exists_fillsWords (text : String) : ∃ k, FillsWords text k := by
  refine ⟨(4 - (text.toUTF8.toList.length + 1) % 4) % 4, Nat.mod_lt _ (by decide), ?_⟩
  rw [stringBytes, List.length_append, List.length_cons, List.length_replicate]
  omega

variable {name text : String} {k : Nat} (h : FillsWords text k)

include h

theorem zeroPadded_eq : zeroPadded (text.toUTF8.toList ++ [0]) = stringBytes text k := by
  have hlt := h.lt_four
  have hdvd := h.four_dvd
  simp only [stringBytes, List.length_append, List.length_cons, List.length_replicate] at hdvd
  rw [zeroPadded, stringBytes, List.length_append, List.length_singleton,
    show (4 - (text.toUTF8.toList.length + 1) % 4) % 4 = k by omega, List.append_assoc]
  rfl

theorem size_eq : Payload.size (.text text.toUTF8.toList) = (stringBytes text k).length.toUInt32 :=
  @Payload.size_contribution [] (.text text.toUTF8.toList) _ (congrArg some h.zeroPadded_eq)

theorem layout_eq {origin : Address} (hfits : origin.toNat + 4 + (stringBytes text k).length + 4 < 2 ^ 32) :
    Layout.ofStatements origin (stringStatements name text) =
      .ok ⟨[(.ofText name, origin + 4)], origin + 4 + (stringBytes text k).length.toUInt32 + 4⟩ := by
  have hjump : advance origin 4 = .ok (origin + 4) := advance_eq_ok.2 ⟨by omega, rfl⟩
  have hdata : advance (origin + 4) (stringBytes text k).length =
      .ok (origin + 4 + (stringBytes text k).length.toUInt32) := by
    refine advance_eq_ok.2 ⟨?_, rfl⟩
    rw [toNat_of_advance hjump]
    omega
  have hstop : advance (origin + 4 + (stringBytes text k).length.toUInt32) 4 =
      .ok (origin + 4 + (stringBytes text k).length.toUInt32 + 4) := by
    refine advance_eq_ok.2 ⟨?_, rfl⟩
    rw [toNat_of_advance hdata, toNat_of_advance hjump]
    omega
  have hplace : Cursor.place { address := origin, current := .data } (.data (.ofText name) (.text text.toUTF8.toList)) =
      .ok ⟨origin + 4 + (stringBytes text k).length.toUInt32, .data, true, [(.ofText name, origin + 4)]⟩ := by
    show (Cursor.makeJump { address := origin, current := .data } >>= fun c =>
      c.labels.define (.ofText name) c.address >>= fun labels =>
        advance c.address (Payload.size (.text text.toUTF8.toList)).toNat >>= fun address =>
          .ok { c with labels, address }) = _
    have hmake : Cursor.makeJump { address := origin, current := .data } =
        .ok { address := origin + 4, current := .data, pending := true } := by
      show (advance origin 4 >>= _) = _
      rw [hjump]
      rfl
    have hnat : (stringBytes text k).length.toUInt32.toNat = (stringBytes text k).length :=
      UInt32.toNat_ofNat_of_lt (by show _ < 2 ^ 32; omega)
    rw [hmake, h.size_eq, hnat]
    show (advance (origin + 4) (stringBytes text k).length >>= _) = _
    rw [hdata]
    rfl
  show (atLine 1 (Cursor.place { address := origin, current := .data } _) >>= _) = _
  rw [hplace]
  show (atLine 1 (advance _ 4) >>= _) = _
  rw [hstop]
  rfl

theorem emit_eq (origin : Address) :
    emitFrom ⟨[(.ofText name, origin + 4)], origin + 4 + (stringBytes text k).length.toUInt32 + 4⟩ origin .code false
        (stringStatements name text) =
      .ok ⟨[.skip origin (origin + 4 + (stringBytes text k).length.toUInt32),
          .data 1 (origin + 4) (.ofText name) (stringBytes text k),
          .halt (origin + 4 + (stringBytes text k).length.toUInt32)],
        origin + 4 + (stringBytes text k).length.toUInt32⟩ := by
  have hconfirm : LabelTable.confirm [(.ofText name, origin + 4)] (.ofText name) (origin + 4) = .ok () :=
    LabelTable.confirm_eq_ok (by simp [LabelTable.get?])
  have hitems : itemsOf [(.ofText name, origin + 4)] (origin + 4)
      ⟨1, .data (.ofText name) (.text text.toUTF8.toList)⟩ =
        .ok ([.data 1 (origin + 4) (.ofText name) (stringBytes text k)],
          origin + 4 + (stringBytes text k).length.toUInt32) := by
    show (LabelTable.confirm _ _ _ >>= fun _ => _) = _
    rw [hconfirm, ← h.zeroPadded_eq, ← padToWord_eq]
    rfl
  rw [stringStatements, emitFrom_header rfl, emitFrom_cons fun _ hk => by cases hk]
  show (atLine 1 (itemsOf [(.ofText name, origin + 4)] (origin + 4) _) >>= _) = _
  rw [hitems]
  show (emitFrom _ (origin + 4 + (stringBytes text k).length.toUInt32) .data true [] >>= _) = _
  rw [emitFrom, if_pos rfl]
  rfl

/-- On its own, the declaration is assembled to a jump, its bytes and the end of the program. -/
theorem assemble_eq {origin : Address} (hname : IsPlainName name) (htext : IsLiteralText text)
    (hfits : origin.toNat + 4 + (stringBytes text k).length + 4 < 2 ^ 32) :
    ∃ p, assemble origin (stringSource name text) = .ok p ∧ p.labels = [(.ofText name, origin + 4)] ∧
      p.image.bytes = (jumpTo (origin + 4 + (stringBytes text k).length.toUInt32)).toBytes ++ stringBytes text k ++
        (0 : Word).toBytes := by
  have hread : readProgram [⟨1, ".DATA"⟩, ⟨1, stringText name text⟩] = .ok (stringStatements name text) :=
    readProgram_stringLines hname text []
  have hload : loadAddress (stringStatements name text) origin = .ok origin := by
    have hstack : stackWords (stringStatements name text) = 0 := rfl
    have hlt : 4 * (0 : Word).toNat + origin.toNat < UInt32.size := by
      have := origin.toNat_lt
      simpa using this
    rw [loadAddress, hstack, if_pos hlt]
    simp
  exact ⟨_, bind_eq_ok.2 ⟨_, splitSource_stringSource hname htext, bind_eq_ok.2 ⟨_, hread, bind_eq_ok.2 ⟨_, hload,
    bind_eq_ok.2 ⟨_, h.layout_eq hfits, bind_eq_ok.2 ⟨_, bind_eq_ok.2 ⟨_, h.emit_eq origin, rfl⟩, rfl⟩⟩⟩⟩⟩, rfl,
    by simp [Item.bytes]⟩

omit h in
/-- Room is made for the jump over the string before the string is laid out. -/
theorem toNat_add_four {origin : Address} {later : List Statement} {layout : Layout}
    (hlayout : Layout.ofStatements origin (stringStatements name text ++ later) = .ok layout) :
    (origin + 4).toNat = origin.toNat + 4 := by
  obtain ⟨c, hheader, hlayout⟩ := Cursor.placeAll_cons hlayout
  cases hheader
  obtain ⟨c', hdata, -⟩ := Cursor.placeAll_cons hlayout
  obtain ⟨start, n, hstep⟩ := Cursor.step_of_place hdata fun _ hk => by cases hk
  have hstart := hstep.toNat_start
  rw [hstep.start_eq] at hstart
  exact hstart

/-- Whatever stands after it, the bytes of the declaration stand at the address of its name. -/
theorem bytes_of_assemble {origin : Address} {rest : String} {p : Program} (hname : IsPlainName name)
    (htext : IsLiteralText text) (hp : assemble origin (stringSource name text ++ rest) = .ok p) :
    ∃ a after, p.labels.get? (.ofText name) = some a ∧ p.image.loadAddress.toNat ≤ a.toNat ∧
      p.image.bytes.drop (a.toNat - p.image.loadAddress.toNat) = stringBytes text k ++ after := by
  obtain ⟨statements, placed, stop, hreads, hplaced⟩ := placement_of_assemble hp
  obtain ⟨lines, statements', load, layout, r, hsplit, hread, hload, hlayout, -, rfl⟩ := assemble_eq_ok hp
  obtain rfl := hreads.unique ⟨lines, hsplit, hread⟩
  obtain ⟨more, rfl⟩ := exists_lines hname htext hsplit
  rw [readProgram_stringLines hname] at hread
  obtain ⟨later, -, rfl⟩ := map_eq_ok.1 hread
  have hstack : (stackWords (stringStatements name text ++ later)).toNat = 0 := rfl
  have hnat := toNat_of_loadAddress hload
  have hplacement := hplaced.placement_eq
  have hstart := hplaced.toNat_loadAddress
  rw [hstack, Nat.mul_zero, Nat.add_zero] at hplacement hstart hnat
  obtain rfl := UInt32.toNat_inj.1 hnat
  have ha := toNat_add_four hlayout
  rw [stringStatements, List.cons_append, placement_header rfl] at hplacement
  -- the string is the first thing that is placed, after the jump over it
  obtain ⟨bytes, placed', hbytes, -, rfl⟩ := (placement_cons fun _ hk => by cases hk).1 hplacement
  obtain rfl : stringBytes text k = bytes := h.zeroPadded_eq.symm.trans (Option.some.inj hbytes)
  have hjump : load.toNat + jumpSize .data false = (load + 4).toNat := ha.symm
  refine ⟨load + 4, bytesWith (fun later => jumpTo (resumeAt stop later).toUInt32) placed', ?_, ?_, ?_⟩
  · rw [← LabelTable.mem_iff_get? hplaced.ordered, hplaced.mem_labels_iff]
    exact ⟨_, List.mem_cons_self .., rfl, by rw [hjump]; exact toUInt32_toNat _⟩
  · omega
  · rw [ha, hstart, Nat.add_sub_cancel_left, hplaced.image_eq]
    rfl

end FillsWords

/-- The data of a string. For every text without a quote right before a semicolon, and every name of one plain word, a
program that starts with the declaration has at the address of the name exactly the text in UTF-8, a zero byte and the
fewest zeros that fill up a word; and wherever there is room for the declaration alone, it is assembled, to a jump over
these bytes, the bytes and the end of the program. -/
theorem string_placed {name text : String} (hname : IsPlainName name) (htext : IsLiteralText text) :
    ∃ k, FillsWords text k ∧ ∀ origin : Address,
      (∀ rest p, assemble origin (stringSource name text ++ rest) = .ok p →
        ∃ a after, p.labels.get? (.ofText name) = some a ∧ p.image.loadAddress.toNat ≤ a.toNat ∧
          p.image.bytes.drop (a.toNat - p.image.loadAddress.toNat) = stringBytes text k ++ after) ∧
        (origin.toNat + 4 + (stringBytes text k).length + 4 < 2 ^ 32 →
          ∃ p, assemble origin (stringSource name text) = .ok p ∧ p.labels = [(.ofText name, origin + 4)] ∧
            p.image.bytes = (jumpTo (origin + 4 + (stringBytes text k).length.toUInt32)).toBytes ++
              stringBytes text k ++ (0 : Word).toBytes) := by
  obtain ⟨k, hk⟩ := FillsWords.exists_fillsWords text
  exact ⟨k, hk, fun _ => ⟨fun _ _ h => hk.bytes_of_assemble hname htext h, fun h => hk.assemble_eq hname htext h⟩⟩

/-- A text with a semicolon, a comment, a newline, a comma and a quote at its end, and code after it. -/
theorem string_placed_quote :
    let text := "a; #\n,\""
    let p : Program := ⟨⟨8, 0, [5, 0, 0, 16, 97, 59, 32, 35, 10, 44, 34, 0, 34, 0, 0, 0, 0, 0, 0, 0]⟩, [(⟨"s"⟩, 12)],
      [.skip 8 20, .data 1 12 ⟨"s"⟩ [97, 59, 32, 35, 10, 44, 34, 0], .instruction 2 20 [34], .halt 24]⟩
    IsPlainName "s" ∧ IsLiteralText text ∧ assemble 8 (stringSource "s" text ++ " .CODE; INC r1;") = .ok p ∧
      ∃ k a after, FillsWords text k ∧ p.labels.get? (.ofText "s") = some a ∧ 8 ≤ a.toNat ∧
        p.image.bytes.drop (a.toNat - 8) = stringBytes text k ++ after := by
  intro text p
  have hname : IsPlainName "s" := ⟨by decide, fun c hc => by rw [List.mem_singleton.1 hc]; decide⟩
  have htext : IsLiteralText text := by decide +kernel
  have hp : assemble 8 (stringSource "s" text ++ " .CODE; INC r1;") = .ok p := by decide +kernel
  obtain ⟨k, hk, h⟩ := string_placed hname htext
  obtain ⟨a, after, ha⟩ := (h 8).1 _ p hp
  exact ⟨hname, htext, hp, k, a, after, hk, ha⟩

end WordMachine.Assembly
