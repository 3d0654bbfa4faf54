/-
The forms that a statement with tokens can have. A node made of words alone is a leaf, a keyword, a declaration
or a function with its parameters; a name with parentheses after it is no operator; and a value that is
returned or given to a variable has tokens. A statement that is refused for its form has a fault in its text.
-/
import WordMachine.Cflat.Tree
import WordMachine.Proofs.Cflat.Numbers
import WordMachine.Proofs.Cflat.Rendering
import WordMachine.Proofs.Result

namespace WordMachine.Cflat

/-- A fault that lies in the text of the program. -/
def Fault.InText : Fault → Prop
  | .internal _ => False
  | _ => True

/-- The nodes that are made of words alone, by what they and their arguments are. -/
inductive SimpleNode : Head → List Head → Prop
  | leaf (leaf : Leaf) : SimpleNode (.ofLeaf leaf) []
  | keyword (word : Token) (labels : List Token) (h : word.isOperator = false) :
      SimpleNode (.call word) (labels.map Head.raw)
  | declaration (depth : Nat) (name type : String) : SimpleNode (.declare depth) [.raw name, .raw type]
  | function (name : Token) (returns : ValueType) (parameters : List Head)
      (h : ∀ p ∈ parameters, p.kind = "FunctionArgumentDef") : SimpleNode (.function name returns) parameters

/-- A name with parentheses after it is no operator. -/
def Invocation.Sound : Invocation → Prop
  | .call callee _ => callee.isOperator = false
  | _ => True

def Item.Sound : Item → Prop
  | .token _ => True
  | .invoke invocation => invocation.Sound

/-- What holds of the form of every statement that has tokens. -/
def Form.Sound : Form → Prop
  | .refused fault => fault.InText
  | .simple head arguments => SimpleNode head arguments
  | .invoke invocation => invocation.Sound
  | .result value => value ≠ []
  | .initialise _ _ _ value => value ≠ []
  | .expression items => ∀ i ∈ items, i.Sound

/-! ## Calls and expressions -/

theorem Invocation.sound_read {callee : Token} (h : callee.isOperator = false) (inner : List Token) :
    (read callee inner).Sound := by
  unfold read
  split
  · split <;> trivial
  · exact h

theorem Item.sound_of_mem_scan {tokens : List Token} {item : Item} (hi : item ∈ scan tokens) : item.Sound := by
  fun_induction scan tokens with
  | case1 => cases hi
  | case2 t ts h inner rest _ ih =>
    rcases List.mem_cons.1 hi with rfl | hi
    · exact Invocation.sound_read (isOperator_of_isCallee h.1) inner
    · exact ih hi
  | case3 t ts _ _ =>
    rcases List.mem_cons.1 hi with rfl | hi
    · trivial
    · cases hi
  | case4 t ts _ ih =>
    rcases List.mem_cons.1 hi with rfl | hi
    · trivial
    · exact ih hi

theorem inText_of_read {t : Token} {fault : Fault} (h : Leaf.read t = .error fault) : fault.InText := by
  rcases read_eq_error h with rfl | rfl <;> trivial

namespace Form

theorem sound_expressionOf (tokens : List Token) : (expressionOf tokens).Sound := by
  unfold expressionOf
  split
  · split
    · exact .leaf _
    · rename_i hread
      exact inText_of_read hread
  · exact fun _ hi => Item.sound_of_mem_scan hi

theorem sound_loop (rest : List Token) : (loop rest).Sound := by
  unfold loop
  split
  · exact Invocation.sound_read (by decide) _
  · trivial

theorem sound_of_call? {tokens : List Token} {form : Form} (h : call? tokens = some form) : form.Sound := by
  unfold call? at h
  split at h
  · split at h
    · rename_i hcallee
      obtain ⟨inner, -, rfl⟩ := Option.map_eq_some_iff.1 h
      exact Invocation.sound_read (isOperator_of_isCallee hcallee.1) inner
    · cases h
  · cases h

/-! ## Functions -/

theorem inText_of_usableType {word : Token} {fault : Fault} (h : usableType word = .error fault) :
    fault.InText := by
  unfold usableType at h
  repeat' split at h
  all_goals cases h
  trivial

theorem kind_of_parameter {function : Token} {tokens : List Token} {head : Head}
    (h : parameter function tokens = .ok head) : head.kind = "FunctionArgumentDef" := by
  cases tokens with
  | nil => cases h
  | cons word rest =>
    rw [parameter] at h
    obtain ⟨type, -, h⟩ := bind_eq_ok.1 h
    split at h
    · cases h
    · split at h <;> cases h
      rfl

theorem inText_of_parameter {function : Token} {tokens : List Token} {fault : Fault}
    (h : parameter function tokens = .error fault) : fault.InText := by
  cases tokens with
  | nil => cases h; trivial
  | cons word rest =>
    rw [parameter] at h
    rcases bind_eq_error.1 h with h | ⟨type, -, h⟩
    · exact inText_of_usableType h
    · split at h
      · cases h; trivial
      · split at h <;> cases h
        trivial

/-- A function has its parameters for arguments, or is refused for its text. -/
theorem sound_function (returns name : Token) (inner : List Token) : (function returns name inner).Sound := by
  unfold function
  split
  · rename_i type heads h
    obtain ⟨type', -, h⟩ := bind_eq_ok.1 h
    obtain ⟨heads', hheads, h⟩ := bind_eq_ok.1 h
    cases h
    refine .function name type heads fun head hhead => ?_
    unfold parameters at hheads
    split at hheads
    · cases hheads; cases hhead
    · obtain ⟨tokens, -, hparameter⟩ := mem_of_mapM_eq_ok hheads hhead
      exact kind_of_parameter hparameter
  · rename_i fault h
    rcases bind_eq_error.1 h with h | ⟨type, -, h⟩
    · exact inText_of_usableType h
    · rcases bind_eq_error.1 h with h | ⟨heads, -, h⟩
      · unfold parameters at h
        split at h
        · cases h
        · obtain ⟨tokens, -, h⟩ := mem_of_mapM_eq_error h
          exact inText_of_parameter h
      · cases h

theorem sound_of_function? {tokens : List Token} {form : Form} (h : function? tokens = some form) : form.Sound := by
  unfold function? at h
  dsimp only at h
  split at h
  · split at h <;> cases h
    exact sound_function _ _ _
  · cases h

/-! ## Other statements -/

theorem isOperator_blockKeywords : ∀ word ∈ Token.blockKeywords, word.isOperator = false := by
  decide

theorem sound_of_transfer? {keyword : Token} {rest : List Token} {form : Form}
    (h : transfer? keyword rest = some form) : form.Sound := by
  unfold transfer? at h
  split at h
  · subst keyword
    cases h
    split
    · exact .keyword "return" [] (by decide)
    · rename_i hne
      exact fun he => hne (by rw [he]; rfl)
  · split at h
    · rename_i hk
      have hop : keyword.isOperator = false := by rcases hk with rfl | rfl <;> decide
      cases h
      split
      · exact .keyword keyword [] hop
      · trivial
    · split at h
      · rename_i hk
        have hop : keyword.isOperator = false := by rcases hk with rfl | rfl <;> decide
        split at h
        · cases h
          split
          · exact .keyword keyword [_] hop
          · trivial
        · cases h; trivial
      · cases h

theorem sound_declaration (type : String) (rest : List Token) : (declaration type rest).Sound := by
  unfold declaration
  dsimp only
  split
  · trivial
  · split
    · trivial
    · split
      · exact .declaration _ _ _
      · split
        · rename_i hvalue
          exact fun he => by simp [he] at hvalue
        · trivial

theorem sound_of_declaration? {tokens : List Token} {form : Form} (h : declaration? tokens = some form) :
    form.Sound := by
  unfold declaration? at h
  dsimp only at h
  split at h
  · cases h
    split
    · exact sound_declaration _ _
    · exact sound_declaration _ _
  · cases h

theorem sound_of_keyword? {tokens : List Token} {form : Form} (h : keyword? tokens = some form) : form.Sound := by
  obtain ⟨word, hword, rfl⟩ := Option.map_eq_some_iff.1 h
  split
  · exact .keyword word [] (isOperator_blockKeywords word (List.contains_iff_mem.1 (List.find?_some hword)))
  · trivial

/-- What is read first decides on the form. -/
theorem getD_or {P : Form → Prop} {a b : Option Form} {f : Form} (ha : ∀ form, a = some form → P form)
    (hb : P (b.getD f)) : P ((a <|> b).getD f) := by
  cases a with
  | none => exact hb
  | some form => exact ha form rfl

/-- The form of a statement with tokens. -/
theorem sound_ofTokens (first : Token) (rest : List Token) : (ofTokens (first :: rest)).Sound := by
  rw [ofTokens]
  split
  · exact sound_loop rest
  · refine getD_or (P := Sound) (fun _ => sound_of_function?) ?_
    refine getD_or (P := Sound) (fun _ => sound_of_call?) ?_
    refine getD_or (P := Sound) (fun _ => sound_of_transfer?) ?_
    refine getD_or (P := Sound) (fun _ => sound_of_declaration?) ?_
    cases hk : keyword? (first :: rest) with
    | none => exact sound_expressionOf _
    | some form => exact sound_of_keyword? hk

end Form

end WordMachine.Cflat
