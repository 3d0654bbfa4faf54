/-
Declarations of variables: one to four words, the last of which is the type, a tag after `struct`, stars, a name,
and perhaps a value. Every statement that declares a variable is written like this, and every declaration that is
written like this is read as such; but the tag may be any token, where a name is meant.
-/
import WordMachine.Proofs.Cflat.Shapes
import WordMachine.Proofs.Cflat.SingleStatement

namespace WordMachine.Cflat

/-! ## The grammar -/

/-- How a declaration is written. `words` come before the type. -/
structure Declaration where
  words : List Token
  type : Token
  tag : Option Token
  stars : Nat
  name : Token
  value : Option (List Token)
  length_le : words.length ≤ 3
  words_mem : ∀ t ∈ words ++ [type], t ∈ Token.declarationWords
  isSome_tag : tag.isSome = true ↔ type = "struct"
  isIdentifier_name : name.isIdentifier = true
  value_ne_nil : ∀ v, value = some v → v ≠ []

namespace Declaration

/-- The tokens from the stars on. -/
def declarator (d : Declaration) : List Token :=
  List.replicate d.stars "*" ++ d.name :: d.value.elim [] ("=" :: ·)

/-- The tokens after the type. -/
def afterType (d : Declaration) : List Token := d.tag.toList ++ d.declarator

def tokens (d : Declaration) : List Token := d.words ++ [d.type] ++ d.afterType

/-- The type as the tree holds it. -/
def typeText (d : Declaration) : String := d.tag.elim d.type ("struct " ++ ·)

/-- The depth of the pointer: the number of stars, as far as it fits in 32 bits. -/
def depth (d : Declaration) : Nat := min d.stars (2 ^ 32 - 1)

/-- The tree of a declaration: its name, its type and the tree of its value. -/
def tree (line : Nat) (d : Declaration) : Except Error Node :=
  let leaves : List Node := [.leaf (.raw d.name) line, .leaf (.raw d.typeText) line]
  match d.value with
  | none => .ok (.apply (.declare d.depth) line leaves)
  | some value => (Node.ofTokens line value).map fun value => .apply (.initialise d.depth) line (leaves ++ [value])

/-- The tag is a name. -/
def TagIsName (d : Declaration) : Prop := ∀ tag, d.tag = some tag → tag.isIdentifier = true

/-- As many words are taken as can be. -/
def Greedy (d : Declaration) : Prop :=
  ∀ next, d.afterType.head? = some next → next ∈ Token.declarationWords → d.words.length = 3

end Declaration

/-! ## Stars, a name and perhaps a value -/

/-- The form of a declaration by its parts. -/
def variableForm (depth : Nat) (name : Token) (type : String) (value : Option (List Token)) : Form :=
  value.elim (.simple (.declare depth) [.raw name, .raw type]) (.initialise depth name type ·)

theorem depthOfStars_eq (stars : Nat) : Head.depthOfStars stars = min stars (2 ^ 32 - 1) := by
  have hsize : UInt32.size = 2 ^ 32 := rfl
  rw [Head.depthOfStars, hsize]
  split <;> omega

theorem takeWhile_stars {stars : Nat} {name : Token} (more : List Token) (h : name ≠ "*") :
    (List.replicate stars "*" ++ name :: more).takeWhile (· = "*") = List.replicate stars "*" := by
  induction stars with
  | zero => exact List.takeWhile_cons_of_neg (by simpa using h)
  | succ stars ih => rw [List.replicate_succ, List.cons_append, List.takeWhile_cons_of_pos (by simp), ih]

theorem dropWhile_stars {stars : Nat} {name : Token} (more : List Token) (h : name ≠ "*") :
    (List.replicate stars "*" ++ name :: more).dropWhile (· = "*") = name :: more := by
  induction stars with
  | zero => exact List.dropWhile_cons_of_neg (by simpa using h)
  | succ stars ih => rw [List.replicate_succ, List.cons_append, List.dropWhile_cons_of_pos (by simp), ih]

theorem declaration_declarator {stars : Nat} {name : Token} {value : Option (List Token)} (type : String)
    (hname : name.isIdentifier = true) (hvalue : ∀ v, value = some v → v ≠ []) :
    Form.declaration type (List.replicate stars "*" ++ name :: value.elim [] ("=" :: ·)) =
      variableForm (min stars (2 ^ 32 - 1)) name type value := by
  have hstar : name ≠ "*" := by
    rintro rfl
    exact absurd hname (by decide)
  unfold Form.declaration
  dsimp only
  rw [takeWhile_stars _ hstar, dropWhile_stars _ hstar, List.length_replicate, depthOfStars_eq]
  dsimp only
  rw [hname]
  cases value with
  | none => rfl
  | some v => simp [variableForm, hvalue v rfl]

/-- What is not refused as a declaration is written as one. -/
theorem refused_or_declarator (type : String) (rest : List Token) :
    (∃ fault, Form.declaration type rest = .refused fault) ∨
      ∃ (stars : Nat) (name : Token) (value : Option (List Token)), name.isIdentifier = true ∧
        (∀ v, value = some v → v ≠ []) ∧ rest = List.replicate stars "*" ++ name :: value.elim [] ("=" :: ·) := by
  have hstars : rest.takeWhile (· = "*") = List.replicate (rest.takeWhile (· = "*")).length "*" :=
    List.eq_replicate_of_mem fun t ht => of_decide_eq_true (List.all_eq_true.1 List.all_takeWhile t ht)
  have hrest := List.takeWhile_append_dropWhile (p := (· = "*")) (l := rest)
  unfold Form.declaration
  dsimp only
  split
  · exact .inl ⟨_, rfl⟩
  rename_i name more hdrop
  rw [hstars, hdrop] at hrest
  split
  · exact .inl ⟨_, rfl⟩
  rename_i hname
  rw [Bool.not_eq_true', Bool.not_eq_false] at hname
  split
  · exact .inr ⟨_, name, none, hname, fun v hv => by (cases hv), hrest.symm⟩
  · rename_i sign value
    split
    · rename_i hvalue
      obtain ⟨rfl, hvalue⟩ := hvalue
      refine .inr ⟨_, name, some value, hname, fun v hv => ?_, hrest.symm⟩
      cases hv
      rintro rfl
      cases hvalue
    · exact .inl ⟨_, rfl⟩

/-! ## What declares nothing -/

/-- The names of nodes that declare a variable. -/
def Token.declaring : List Token := ["#_declarevar", "#_assignvar"]

def Head.Declares (h : Head) : Prop := ∃ name ∈ Token.declaring, h.name? = some name

theorem not_declares_call {name : Token} (h : name ∉ Token.declaring) : ¬(Head.call name).Declares := by
  rintro ⟨_, hmem, ⟨⟩⟩
  exact h hmem

theorem not_declaring_of_isIdentifier {name : Token} (h : name.isIdentifier = true) : name ∉ Token.declaring := by
  have hall : ∀ t ∈ Token.declaring, t.isIdentifier = false := by decide
  intro hmem
  rw [hall name hmem] at h
  cases h

theorem not_declaring_of_level? {op : Token} (h : op.level?.isSome = true) : op ∉ Token.declaring := by
  have hall : ∀ t ∈ Token.declaring, t.level?.isSome = false := by decide
  intro hmem
  rw [hall op hmem] at h
  cases h

theorem isIdentifier_of_isCallee {name : Token} (h : name.isCallee = true) : name.isIdentifier = true :=
  (Bool.and_eq_true_iff.1 h).1

theorem not_declares_of_read {t : Token} {leaf : Leaf} (h : Leaf.read t = .ok leaf) :
    ¬(Head.ofLeaf leaf).Declares := by
  rintro ⟨name, hmem, hname⟩
  cases leaf with
  | literal value => cases hname
  | _ =>
    cases hname
    unfold Leaf.read at h
    repeat' split at h
    all_goals cases h
    exact not_declaring_of_isIdentifier ‹_› hmem

/-- An operator, a leaf and a call declare nothing, nor does an expression of them. -/
theorem keptByOperators_not_declares (line : Nat) : Stacks.KeptByOperators line (¬·.head.Declares) where
  leaf _ _ h := not_declares_of_read h
  unary op hop _ _ := not_declares_call (not_declaring_of_level? (by rw [beq_iff_eq.1 hop]; rfl))
  binary _ _ hlevel _ _ _ _ := not_declares_call (not_declaring_of_level? hlevel)

def Invocation.DeclaresNothing : Invocation → Prop
  | .call callee _ => callee ∉ Token.declaring
  | _ => True

def Item.DeclaresNothing : Item → Prop
  | .token _ => True
  | .invoke invocation => invocation.DeclaresNothing

/-- A form whose node declares no variable. -/
def Form.DeclaresNothing : Form → Prop
  | .refused _ | .result _ => True
  | .simple head _ => ¬head.Declares
  | .invoke invocation => invocation.DeclaresNothing
  | .initialise .. => False
  | .expression items => ∀ i ∈ items, i.DeclaresNothing

theorem Invocation.not_declares_of_build {line : Nat} {i : Invocation} {n : Node}
    {tree : (p : List Token) → p ∈ i.parts → Except Error Node} (hi : i.DeclaresNothing)
    (h : i.build line tree = .ok n) : ¬n.head.Declares := by
  cases i with
  | loop clauses =>
    obtain ⟨arguments, -, h⟩ := bind_eq_ok.1 h
    cases h
    exact not_declares_call (by decide)
  | call callee arguments =>
    obtain ⟨arguments, -, h⟩ := bind_eq_ok.1 h
    cases h
    exact not_declares_call hi
  | refused fault => cases h

theorem Form.not_declares_of_build {line : Nat} {f : Form} {n : Node}
    {tree : (p : List Token) → p ∈ f.parts → Except Error Node} (hf : f.DeclaresNothing)
    (h : f.build line tree = .ok n) : ¬n.head.Declares := by
  cases f with
  | refused fault => cases h
  | simple head arguments => cases h; exact hf
  | invoke invocation => exact Invocation.not_declares_of_build hf h
  | result value =>
    obtain ⟨value, -, h⟩ := bind_eq_ok.1 h
    cases h
    exact not_declares_call (by decide)
  | initialise depth name type value => exact hf.elim
  | expression items =>
    obtain ⟨pieces, hpieces, h⟩ := bind_eq_ok.1 h
    refine property_of_resolve (keptByOperators_not_declares line) (fun tree htree => ?_) (atLine_eq_ok.1 h)
    obtain ⟨⟨item, hi⟩, -, hitem⟩ := mem_of_mapM_eq_ok hpieces htree
    cases item with
    | token t => cases hitem
    | invoke invocation =>
      obtain ⟨n, hn, hcall⟩ := map_eq_ok.1 hitem
      cases hcall
      exact Invocation.not_declares_of_build (hf _ hi) hn

/-! ### Forms of other statements -/

theorem Invocation.declaresNothing_read {callee : Token} (h : callee ∉ Token.declaring) (inner : List Token) :
    (read callee inner).DeclaresNothing := by
  unfold read
  split
  · split <;> trivial
  · exact h

theorem Item.declaresNothing_of_mem_scan {tokens : List Token} {item : Item} (hi : item ∈ scan tokens) :
    item.DeclaresNothing := by
  fun_induction scan tokens with
  | case1 => cases hi
  | case2 t ts h inner rest _ ih =>
    rcases List.mem_cons.1 hi with rfl | hi
    · exact Invocation.declaresNothing_read (not_declaring_of_isIdentifier (isIdentifier_of_isCallee h.1)) inner
    · exact ih hi
  | case3 t ts _ _ =>
    rcases List.mem_cons.1 hi with rfl | hi
    · trivial
    · cases hi
  | case4 t ts _ ih =>
    rcases List.mem_cons.1 hi with rfl | hi
    · trivial
    · exact ih hi

namespace Form

theorem declaresNothing_loop (rest : List Token) : (loop rest).DeclaresNothing := by
  unfold loop
  split
  · exact Invocation.declaresNothing_read (by decide) _
  · trivial

theorem declaresNothing_of_function? {tokens : List Token} {form : Form} (h : function? tokens = some form) :
    form.DeclaresNothing := by
  obtain ⟨_, returns, name, inner, -, -, -, hname, rfl⟩ := exists_of_function? h
  unfold function
  split
  · rintro ⟨_, hmem, ⟨⟩⟩
    exact not_declaring_of_isIdentifier (isIdentifier_of_isCallee hname) hmem
  · trivial

theorem declaresNothing_of_call? {tokens : List Token} {form : Form} (h : call? tokens = some form) :
    form.DeclaresNothing := by
  obtain ⟨callee, inner, -, hcallee, -, rfl⟩ := call?_eq_some_iff.1 h
  exact Invocation.declaresNothing_read (not_declaring_of_isIdentifier (isIdentifier_of_isCallee hcallee)) inner

theorem declaresNothing_of_transfer? {keyword : Token} {rest : List Token} {form : Form}
    (h : transfer? keyword rest = some form) : form.DeclaresNothing := by
  have hall : ∀ k ∈ Token.transferWords, k ∉ Token.declaring := by decide
  have hcall := not_declares_call (hall keyword (isSome_transfer?_iff.1 (by rw [h]; rfl)))
  unfold transfer? at h
  repeat' split at h
  all_goals cases h
  all_goals first | exact hcall | trivial

theorem declaresNothing_of_keyword? {tokens : List Token} {form : Form} (h : keyword? tokens = some form) :
    form.DeclaresNothing := by
  obtain ⟨word, hword, rfl⟩ := Option.map_eq_some_iff.1 h
  have hall : ∀ k ∈ Token.blockKeywords, k ∉ Token.declaring := by decide
  split
  · exact not_declares_call (hall word (List.contains_iff_mem.1 (List.find?_some hword)))
  · trivial

theorem declaresNothing_expressionOf (tokens : List Token) : (expressionOf tokens).DeclaresNothing := by
  unfold expressionOf
  split
  · split
    · rename_i hread
      exact not_declares_of_read hread
    · trivial
  · exact fun _ hi => Item.declaresNothing_of_mem_scan hi

/-- A statement declares nothing unless it is read as a declaration. -/
theorem declaration?_or_declaresNothing (first : Token) (rest : List Token) :
    declaration? (first :: rest) = some (ofTokens (first :: rest)) ∨ (ofTokens (first :: rest)).DeclaresNothing := by
  rw [ofTokens]
  split
  · exact .inr (declaresNothing_loop rest)
  · let P (form : Form) : Prop := declaration? (first :: rest) = some form ∨ form.DeclaresNothing
    refine getD_or (P := P) (fun _ h => .inr (declaresNothing_of_function? h)) ?_
    refine getD_or (P := P) (fun _ h => .inr (declaresNothing_of_call? h)) ?_
    refine getD_or (P := P) (fun _ h => .inr (declaresNothing_of_transfer? h)) ?_
    refine getD_or (P := P) (fun _ h => .inl h) ?_
    cases hk : keyword? (first :: rest) with
    | none => exact .inr (declaresNothing_expressionOf _)
    | some form => exact .inr (declaresNothing_of_keyword? hk)

end Form

/-! ## Declarations as they are written -/

namespace Declaration

variable (d : Declaration)

theorem build_variableForm (line : Nat) :
    (variableForm d.depth d.name d.typeText d.value).build line (fun p _ => Node.ofTokens line p) = d.tree line := by
  unfold variableForm tree
  cases d.value with
  | none => rfl
  | some value =>
    dsimp only [Option.elim_some, Form.build]
    cases Node.ofTokens line value <;> rfl

theorem declaration_declarator_eq (type : String) :
    Form.declaration type d.declarator = variableForm d.depth d.name type d.value :=
  declaration_declarator type d.isIdentifier_name d.value_ne_nil

theorem declaration?_tokens (hgreedy : d.Greedy) :
    Form.declaration? d.tokens = some (variableForm d.depth d.name d.typeText d.value) := by
  cases htag : d.tag with
  | some tag =>
    have hafter : d.afterType = tag :: d.declarator := by rw [afterType, htag]; rfl
    have htype : d.type = "struct" := d.isSome_tag.1 (by rw [htag]; rfl)
    have htext : d.typeText = "struct " ++ tag := by rw [typeText, htag]; rfl
    refine Form.declaration?_eq_some_iff.2 ⟨d.words, d.type, tag, d.declarator, ?_, d.length_le, d.words_mem,
      hgreedy tag (by rw [hafter]; rfl), ?_⟩
    · rw [tokens, hafter]
    · rw [if_pos htype, declaration_declarator_eq, htext]
  | none =>
    have hafter : d.afterType = d.declarator := by rw [afterType, htag]; rfl
    have htype : d.type ≠ "struct" := fun h => by
      have := d.isSome_tag.2 h
      rw [htag] at this
      cases this
    have htext : d.typeText = d.type := by rw [typeText, htag]; rfl
    obtain ⟨next, rest, hcons⟩ := List.exists_cons_of_ne_nil (show d.declarator ≠ [] by simp [declarator])
    refine Form.declaration?_eq_some_iff.2 ⟨d.words, d.type, next, rest, ?_, d.length_le, d.words_mem,
      hgreedy next (by rw [hafter, hcons]; rfl), ?_⟩
    · rw [tokens, hafter, hcons]
    · rw [if_neg htype, ← hcons, declaration_declarator_eq, htext]

/-- The tokens up to the name. -/
def front : List Token := d.words ++ [d.type] ++ (d.tag.toList ++ (List.replicate d.stars "*" ++ [d.name]))

theorem tokens_eq : d.tokens = d.front ++ d.value.elim [] ("=" :: ·) := by
  simp [tokens, front, afterType, declarator]

theorem not_open_mem_front (h : d.TagIsName) : "(" ∉ d.front := by
  have hwords : "(" ∉ Token.declarationWords := by decide
  have hname : ∀ t : Token, t.isIdentifier = true → "(" ≠ t := by
    rintro t ht rfl
    exact absurd ht (by decide)
  simp only [front, List.mem_append, Option.mem_toList, List.mem_singleton, not_or]
  refine ⟨⟨fun hmem => ?_, fun heq => ?_⟩, fun hmem => hname _ (h _ hmem) rfl, fun hmem => ?_,
    hname _ d.isIdentifier_name⟩
  · exact hwords (d.words_mem _ (List.mem_append_left _ hmem))
  · exact hwords (d.words_mem _ (by rw [heq]; simp))
  · exact absurd (List.eq_of_mem_replicate hmem) (by decide)

/-- The front starts with a word of a declaration, and has more than this word. -/
theorem exists_front : ∃ t u us, d.front = t :: u :: us ∧ t ∈ Token.declarationWords := by
  obtain ⟨t, ts, hwords⟩ := List.exists_cons_of_ne_nil (show d.words ++ [d.type] ≠ [] by simp)
  have ht : t ∈ Token.declarationWords := d.words_mem t (by rw [hwords]; exact List.mem_cons_self ..)
  cases hrest : ts ++ (d.tag.toList ++ (List.replicate d.stars "*" ++ [d.name])) with
  | nil => exact absurd hrest (by simp)
  | cons u us => exact ⟨t, u, us, by rw [front, hwords, List.cons_append, hrest], ht⟩

/-- What comes after the front starts with no parenthesis. -/
theorem value_ne_open (ts : List Token) : d.value.elim [] ("=" :: ·) ≠ "(" :: ts := by
  cases d.value with
  | none => exact (List.cons_ne_nil _ _).symm
  | some v => exact fun h => absurd (List.cons.inj h).1 (by decide)

/-- No function is written like a declaration: its parentheses come right after words. -/
theorem function?_tokens (h : d.TagIsName) : Form.function? d.tokens = none := by
  cases hf : Form.function? d.tokens with
  | none => rfl
  | some form =>
    obtain ⟨annotations, returns, name, inner, htokens, hannotations, hreturns, hname, -⟩ :=
      Form.exists_of_function? hf
    have hwords : "=" ∉ annotations ++ [returns, name] := by
      intro hmem
      rw [List.mem_append, List.mem_pair] at hmem
      rcases hmem with hmem | rfl | rfl
      · exact absurd (hannotations _ hmem) (by decide)
      · exact absurd hreturns (by decide)
      · exact absurd hname (by decide)
    rw [tokens_eq] at htokens
    rcases List.append_eq_append_iff.1 htokens with ⟨between, hbetween, hvalue⟩ | ⟨between, hbetween, hopen⟩
    · -- the parenthesis would be in the value, and the sign before it among the words
      cases between with
      | nil => exact absurd hvalue (d.value_ne_open _)
      | cons t between =>
        cases hv : d.value with
        | none =>
          rw [hv] at hvalue
          cases hvalue
        | some v =>
          rw [hv] at hvalue
          cases hvalue
          exact absurd (by rw [hbetween]; simp) hwords
    · cases between with
      | nil => exact absurd hopen.symm (d.value_ne_open _)
      | cons t between =>
        rw [← (List.cons.inj hopen).1] at hbetween
        exact absurd (by rw [hbetween]; simp) (d.not_open_mem_front h)

/-- No call is written like a declaration: its parentheses come right after the first word. -/
theorem call?_tokens (h : d.TagIsName) : Form.call? d.tokens = none := by
  cases hc : Form.call? d.tokens with
  | none => rfl
  | some form =>
    obtain ⟨callee, inner, htokens, -⟩ := Form.call?_eq_some_iff.1 hc
    obtain ⟨t, u, us, hfront, -⟩ := d.exists_front
    rw [tokens_eq, hfront] at htokens
    have hopen : u = "(" := (List.cons.inj (List.cons.inj htokens).2).1
    exact absurd (by rw [hfront, hopen]; simp) (d.not_open_mem_front h)

/-- A declaration with a name for its tag is read as what it is written for. -/
theorem ofTokens_tokens (line : Nat) (htag : d.TagIsName) (hgreedy : d.Greedy) :
    Node.ofTokens line d.tokens = d.tree line := by
  obtain ⟨t, u, us, hfront, ht⟩ := d.exists_front
  have htokens : d.tokens = t :: (u :: us ++ d.value.elim [] ("=" :: ·)) := by rw [tokens_eq, hfront]; rfl
  have hwords : ∀ w ∈ Token.declarationWords, w ≠ "for" ∧ w ∉ Token.transferWords := by decide
  obtain ⟨hfor, hword⟩ := hwords t ht
  have htransfer : Form.transfer? t (u :: us ++ d.value.elim [] ("=" :: ·)) = none :=
    Option.not_isSome_iff_eq_none.1 fun h => hword (Form.isSome_transfer?_iff.1 h)
  have hform : Form.ofTokens d.tokens = variableForm d.depth d.name d.typeText d.value := by
    have hfunction := d.function?_tokens htag
    have hcall := d.call?_tokens htag
    have hdeclaration := d.declaration?_tokens hgreedy
    rw [htokens] at hfunction hcall hdeclaration ⊢
    rw [Form.ofTokens, if_neg hfor, hfunction, hcall, htransfer, hdeclaration]
    rfl
  rw [Node.ofTokens, hform, build_variableForm]

end Declaration

/-- The declaration that the tokens after the type are written for, unless they are refused. -/
theorem exists_declaration_of_declarator {line : Nat} {words rest : List Token} {type : Token} {tag : Option Token}
    {n : Node} (hlength : words.length ≤ 3) (hwords : ∀ t ∈ words ++ [type], t ∈ Token.declarationWords)
    (htag : tag.isSome = true ↔ type = "struct")
    (h : (Form.declaration (tag.elim type ("struct " ++ ·)) rest).build line (fun p _ => Node.ofTokens line p) =
      .ok n) :
    ∃ d : Declaration, d.tokens = words ++ [type] ++ (tag.toList ++ rest) ∧ d.tree line = .ok n ∧
      d.words = words ∧ d.afterType = tag.toList ++ rest := by
  rcases refused_or_declarator (tag.elim type ("struct " ++ ·)) rest with
    ⟨fault, hrefused⟩ | ⟨stars, name, value, hname, hvalue, rfl⟩
  · rw [hrefused] at h
    cases h
  · let d : Declaration := ⟨words, type, tag, stars, name, value, hlength, hwords, htag, hname, hvalue⟩
    have hform : Form.declaration (tag.elim type ("struct " ++ ·))
        (List.replicate stars "*" ++ name :: value.elim [] ("=" :: ·)) = _ := d.declaration_declarator_eq d.typeText
    rw [hform] at h
    exact ⟨d, rfl, d.build_variableForm line ▸ h, rfl, rfl⟩

/-- A statement that declares a variable is written as a declaration. -/
theorem exists_declaration {line : Nat} {tokens : List Token} {n : Node} (h : Node.ofTokens line tokens = .ok n)
    (hn : n.head.Declares) : ∃ d : Declaration, d.tokens = tokens ∧ d.tree line = .ok n ∧ d.Greedy := by
  cases tokens with
  | nil =>
    rw [Node.ofTokens] at h
    cases h
  | cons first rest =>
    rw [Node.ofTokens] at h
    rcases Form.declaration?_or_declaresNothing first rest with hread | hnothing
    · obtain ⟨words, type, next, after, htokens, hlength, hwords, hnext, hform⟩ :=
        Form.declaration?_eq_some_iff.1 hread
      rw [hform] at h
      by_cases htype : type = "struct"
      · rw [if_pos htype] at h
        obtain ⟨d, hd, htree, rfl, hafter⟩ := @exists_declaration_of_declarator _ _ _ _ (some next) _ hlength hwords
          ⟨fun _ => htype, fun _ => rfl⟩ h
        refine ⟨d, by rw [hd, htokens]; rfl, htree, fun t ht => ?_⟩
        rw [hafter] at ht
        cases ht
        exact hnext
      · rw [if_neg htype] at h
        obtain ⟨d, hd, htree, rfl, hafter⟩ := @exists_declaration_of_declarator _ _ _ _ none _ hlength hwords
          ⟨fun h => by (cases h), fun h => absurd h htype⟩ h
        refine ⟨d, by rw [hd, htokens]; rfl, htree, fun t ht => ?_⟩
        rw [hafter] at ht
        cases ht
        exact hnext
    · exact absurd hn (Form.not_declares_of_build hnothing h)

/-! ## Tags -/

/-- No word of a declaration is a type with a tag. -/
theorem ne_struct_append {word : Token} (h : word ∈ Token.declarationWords) (tag : Token) :
    word ≠ "struct " ++ tag := by
  have hall : ∀ w ∈ Token.declarationWords, w.toList.take 7 ≠ "struct ".toList := by decide
  rintro rfl
  exact hall _ h (by rw [String.toList_append]; exact List.take_left' rfl)

/-- The second argument of a declaration's tree is its type. -/
theorem arguments_of_tree {line : Nat} {n : Node} {d : Declaration} (h : d.tree line = .ok n) :
    n.arguments[1]? = some (.leaf (.raw d.typeText) line) := by
  unfold Declaration.tree at h
  split at h
  · cases h
    rfl
  · obtain ⟨value, -, h⟩ := map_eq_ok.1 h
    cases h
    rfl

/-- Declarations with the same tree have the same tag, if one of them has a tag. -/
theorem tag_eq_of_tree {line : Nat} {n : Node} {d d' : Declaration} {tag : Token} (h : d.tree line = .ok n)
    (h' : d'.tree line = .ok n) (htag : d.tag = some tag) : d'.tag = some tag := by
  have htext : d'.typeText = d.typeText := by
    have hleaf := (arguments_of_tree h').symm.trans (arguments_of_tree h)
    injection hleaf with hleaf
    injection hleaf with hraw
    injection hraw with hraw
    injection hraw
  rw [Declaration.typeText, Declaration.typeText, htag, Option.elim_some] at htext
  cases htag' : d'.tag with
  | none =>
    rw [htag', Option.elim_none] at htext
    exact absurd htext (ne_struct_append (d'.words_mem _ (by simp)) tag)
  | some tag' =>
    rw [htag', Option.elim_some] at htext
    rw [(String.append_right_inj "struct ").1 htext]

/-- A statement that declares a variable is written as a declaration: one to four words, a tag after `struct`,
stars, a name and perhaps a value; its tree holds the name, the type and the tree of the value, and the number of
stars. The tag is a name if and only if any such reading of the statement has a name for a tag. And every
declaration with a name for a tag, in which as many words are taken as can be, is read as what it is written for. -/
theorem ofTokens_declaration_iff (line : Nat) :
    (∀ tokens n, Node.ofTokens line tokens = .ok n → n.head.Declares →
      ∃ d : Declaration, d.tokens = tokens ∧ d.tree line = .ok n ∧ d.Greedy ∧
        ((∃ d' : Declaration, d'.tokens = tokens ∧ d'.tree line = .ok n ∧ d'.TagIsName) ↔ d.TagIsName)) ∧
      ∀ d : Declaration, d.TagIsName → d.Greedy → Node.ofTokens line d.tokens = d.tree line := by
  refine ⟨fun tokens n h hn => ?_, fun d htag hgreedy => d.ofTokens_tokens line htag hgreedy⟩
  obtain ⟨d, htokens, htree, hgreedy⟩ := exists_declaration h hn
  refine ⟨d, htokens, htree, hgreedy, fun ⟨d', _, htree', hname⟩ tag htag => ?_,
    fun hname => ⟨d, htokens, htree, hname⟩⟩
  exact hname tag (tag_eq_of_tree htree htree' htag)

/-- A declaration with a word before its type, a tag, a star and a value. -/
theorem ofTokens_declaration_iff_struct :
    let tokens : List Token := ["const", "struct", "P", "*", "p", "=", "q"]
    let n : Node := .apply (.initialise 1) 2 [.leaf (.raw "p") 2, .leaf (.raw "struct P") 2, .leaf (.read "q") 2]
    Node.ofTokens 2 tokens = .ok n ∧ n.head.Declares ∧
      ∃ d : Declaration, d.tokens = tokens ∧ d.tree 2 = .ok n ∧ d.TagIsName := by
  intro tokens n
  let written : Declaration :=
    ⟨["const"], "struct", some "P", 1, "p", some ["q"], by decide, by decide, by decide, by decide, by simp⟩
  have htree : written.tree 2 = .ok n := by
    have hvalue : Node.ofTokens 2 ["q"] = .ok (.leaf (.read "q") 2) := by
      rw [Node.ofTokens]
      rfl
    exact map_eq_ok.2 ⟨_, hvalue, rfl⟩
  have hname : written.TagIsName := by
    rintro tag ⟨⟩
    decide
  have hread : Node.ofTokens 2 tokens = .ok n := by
    refine Eq.trans ((ofTokens_declaration_iff 2).2 written hname fun next hnext hmem => ?_) htree
    cases hnext
    exact absurd hmem (by decide)
  have hdeclares : n.head.Declares := ⟨"#_assignvar", by decide, rfl⟩
  obtain ⟨d, htokens, hd, -, hiff⟩ := (ofTokens_declaration_iff 2).1 tokens n hread hdeclares
  exact ⟨hread, hdeclares, d, htokens, hd, hiff.1 ⟨written, rfl, htree, hname⟩⟩

/-- A star is accepted as the tag of a type, where a name is meant. -/
theorem ofTokens_struct_star :
    let n : Node := .apply (.declare 0) 1 [.leaf (.raw "p") 1, .leaf (.raw "struct *") 1]
    Node.ofTokens 1 ["struct", "*", "p"] = .ok n ∧ n.head.Declares ∧
      ¬∃ d : Declaration, d.tokens = ["struct", "*", "p"] ∧ d.tree 1 = .ok n ∧ d.TagIsName := by
  intro n
  let written : Declaration :=
    ⟨[], "struct", some "*", 0, "p", none, by decide, by decide, by decide, by decide, by simp⟩
  refine ⟨?_, ⟨"#_declarevar", by decide, rfl⟩, fun ⟨d, _, hd, hname⟩ => ?_⟩
  · rw [Node.ofTokens]
    rfl
  · exact absurd (hname "*" (tag_eq_of_tree (d := written) rfl hd rfl)) (by decide)

end WordMachine.Cflat
