/-
The reader by places never strays: every place that it looks up and every slice that it takes are there, and every
nested reading is of a shorter slice. What it gives is the tree, or the error, of the statement.
-/
import WordMachine.Proofs.Cflat.Reader
import WordMachine.Proofs.Cflat.RoundTrip

namespace WordMachine.Cflat

open Reading

/-- The tree of a form. -/
def Form.tree (line : Nat) (f : Form) : Except Error Node := f.build line fun p _ => Node.ofTokens line p

theorem ofTokens_eq_tree (line : Nat) (tokens : List Token) :
    Node.ofTokens line tokens = (Form.ofTokens tokens).tree line := by
  rw [Node.ofTokens]
  rfl

/-- The tree of a form that may not have been recognised. -/
def Form.tree? (line : Nat) : Option Form → Except Error (Option Node)
  | none => .ok none
  | some f => (f.tree line).map some

theorem atLine_bind {α β : Type} (line : Nat) (x : Except Fault α) (f : α → Except Fault β) :
    atLine line (x >>= f) = atLine line x >>= fun a => atLine line (f a) := by
  cases x <;> rfl

theorem atLine_mapM {α β : Type} (line : Nat) (f : α → Except Fault β) (xs : List α) :
    atLine line (xs.mapM f) = xs.mapM fun x => atLine line (f x) := by
  induction xs with
  | nil => rfl
  | cons x xs ih =>
    rw [List.mapM_cons, List.mapM_cons, atLine_bind]
    refine bind_congr fun y => ?_
    rw [atLine_bind, ih]
    rfl

theorem drop_takeWhile {α : Type} (p : α → Bool) (l : List α) : l.drop (l.takeWhile p).length = l.dropWhile p := by
  calc l.drop (l.takeWhile p).length
      = (l.takeWhile p ++ l.dropWhile p).drop (l.takeWhile p).length := by rw [List.takeWhile_append_dropWhile]
    _ = l.dropWhile p := List.drop_left

namespace ByPlaces

/-! ## Steps without nested readings -/

theorem gives_firstOf {line : Nat} {x : Reading (Option Node)} {y : Reading Node} {o : Option Form} {f : Form}
    (hx : Gives x (Form.tree? line o)) (hy : o = none → Gives y (f.tree line)) :
    Gives (firstOf x y) ((o.getD f).tree line) := by
  unfold Gives firstOf at *
  rw [ExceptT.run_bind, hx]
  cases o with
  | none => exact hy rfl
  | some form =>
    rw [Form.tree?, Option.getD_some]
    cases form.tree line <;> rfl

theorem gives_parameter (line : Nat) (function : Token) (group : List Token) :
    Gives (parameter line function group) (atLine line (Form.parameter function group)) := by
  cases group with
  | nil => exact gives_throw _
  | cons word rest =>
    rw [parameter, Form.parameter, atLine_bind]
    refine Gives.bind (gives_ofExcept _) fun type => ?_
    have hlength : (rest.takeWhile (· = "*")).length ≤ rest.length := (List.takeWhile_prefix _).length_le
    refine gives_lift (slice?_drop hlength) ?_
    rw [drop_takeWhile]
    cases rest.dropWhile (· = "*") with
    | nil => exact gives_throw _
    | cons name more =>
      dsimp only
      split
      · exact gives_pure _
      · exact gives_throw _

theorem gives_function (line : Nat) (returns name : Token) (inner : List Token) :
    Gives (function line returns name inner) ((Form.function returns name inner).tree line) := by
  have htree : (Form.function returns name inner).tree line = (do
      let type ← atLine line (Form.usableType returns)
      let parameters ← atLine line (Form.parameters name inner)
      return .apply (.function name type) line (parameters.map fun h => .leaf h line)) := by
    unfold Form.function
    cases Form.usableType returns with
    | error fault => rfl
    | ok type => cases Form.parameters name inner <;> rfl
  rw [htree, function]
  refine Gives.bind (gives_ofExcept _) fun type => ?_
  unfold Form.parameters
  split
  · exact gives_pure _
  · rw [atLine_mapM]
    exact gives_lift (split?_eq "," inner) (Gives.bind (gives_mapM fun group _ => gives_parameter line name group)
      fun parameters => gives_pure _)

/-- The tokens between an opening parenthesis and the last token, which closes it. -/
theorem gives_inner {α : Type} {before inner : List Token} {start : Nat} {f : List Token → Reading α}
    {outcome : Except Error α} (hstart : start = before.length + 1) (hf : Gives (f inner) outcome) :
    Gives (do
      let last ← minus? (before ++ "(" :: (inner ++ [")"])).length 1
      f (← slice? (before ++ "(" :: (inner ++ [")"])) start last)) outcome := by
  have hlength : (before ++ "(" :: (inner ++ [")"])).length = (start + inner.length) + 1 := by
    simp only [List.length_append, List.length_cons, List.length_nil]
    omega
  have hlast : minus? (before ++ "(" :: (inner ++ [")"])).length 1 = some (start + inner.length) := by
    rw [hlength, minus?_add]
  have htokens : before ++ "(" :: (inner ++ [")"]) = (before ++ ["("]) ++ (inner ++ [")"]) := by simp
  exact gives_lift hlast (gives_lift (slice?_eq_some htokens (by simpa using hstart) rfl) hf)

theorem gives_functionAt? (line : Nat) (annotations : List Token) (returns name : Token) (after : List Token) :
    Gives (functionAt? line (annotations ++ returns :: name :: "(" :: after) (annotations.length + 2))
      (Form.tree? line ((wholeGroup? after).bind fun inner =>
        if annotations.all Token.functionAnnotations.contains ∧ Token.functionTypes.contains returns ∧
          Token.isCallee name then some (Form.function returns name inner) else none)) := by
  have hlength : (annotations ++ [returns, name]).length = annotations.length + 2 := List.length_append
  have hend := closesAtEnd?_append (annotations ++ [returns, name]) after
  rw [hlength, List.append_assoc] at hend
  refine gives_lift hend ?_
  cases hgroup : wholeGroup? after with
  | none => exact gives_pure none
  | some inner =>
    obtain rfl := eq_of_wholeGroup? hgroup
    have hbefore : slice? (annotations ++ returns :: name :: "(" :: (inner ++ [")"])) 0 (annotations.length + 2) =
        some (annotations ++ [returns, name]) :=
      @slice?_eq_some _ [] _ ("(" :: (inner ++ [")"])) _ _ (by simp) rfl (by simp)
    have hannotations : slice? (annotations ++ [returns, name]) 0 annotations.length = some annotations :=
      @slice?_eq_some _ [] _ [returns, name] _ _ rfl rfl (Nat.zero_add _).symm
    have hsignature : slice? (annotations ++ [returns, name]) annotations.length
        (annotations ++ [returns, name]).length = some [returns, name] :=
      @slice?_eq_some _ annotations _ [] _ _ (by simp) rfl hlength
    refine gives_lift hbefore (gives_lift (minus?_add _ 2) (gives_lift hannotations ?_))
    refine gives_lift (minus?_add _ 2) (gives_lift hsignature (gives_lift rfl (gives_lift rfl ?_)))
    rw [Option.bind_some]
    split
    · have hinner := gives_inner (f := fun p => some <$> function line returns name p)
        (congrArg (· + 1) hlength.symm) ((gives_function line returns name inner).map some)
      rw [List.append_assoc] at hinner
      exact hinner
    · exact gives_pure none

theorem gives_function? (line : Nat) (tokens : List Token) :
    Gives (function? line tokens) (Form.tree? line (Form.function? tokens)) := by
  have htokens := List.takeWhile_append_dropWhile (p := (· ≠ "(")) (l := tokens)
  have hnone : (tokens.takeWhile (· ≠ "(")).findIdx? (· = "(") = none :=
    List.findIdx?_eq_none_iff.2 fun t ht => by simpa using List.all_eq_true.1 List.all_takeWhile t ht
  rw [function?, Form.function?]
  cases hafter : tokens.dropWhile (· ≠ "(") with
  | nil =>
    rw [hafter, List.append_nil] at htokens
    rw [htokens] at hnone
    rw [hnone]
    cases (tokens.takeWhile (· ≠ "(")).reverse with
    | nil => exact gives_pure none
    | cons name words => cases words <;> exact gives_pure none
  | cons t after =>
    obtain rfl := eq_open_of_dropWhile hafter
    rw [hafter] at htokens
    generalize tokens.takeWhile (· ≠ "(") = before at *
    subst htokens
    have hfind : (before ++ "(" :: after).findIdx? (· = "(") = some before.length := by
      rw [List.findIdx?_append, hnone, List.findIdx?_cons]
      simp
    rw [hfind, List.tail_cons]
    -- fewer than two words before the parenthesis are no signature
    rcases before.eq_nil_or_concat with rfl | ⟨front, name, rfl⟩
    · exact gives_pure none
    rcases front.eq_nil_or_concat with rfl | ⟨annotations, returns, rfl⟩
    · exact gives_pure none
    simp only [List.concat_eq_append, List.append_assoc, List.cons_append, List.nil_append, List.reverse_append,
      List.reverse_cons, List.reverse_nil, List.length_append, List.length_cons, List.length_nil]
    have hread := gives_functionAt? line annotations returns name after
    by_cases hwords : annotations.length ≤ 2
    · rw [if_pos ⟨Nat.le_add_left .., Nat.add_le_add_right hwords 2⟩]
      cases hgroup : wholeGroup? after with
      | none =>
        rw [hgroup] at hread
        exact hread
      | some inner =>
        rw [hgroup, Option.bind_some] at hread
        simpa only [List.length_reverse, List.all_reverse, hwords, true_and] using hread
    · rw [if_neg fun h => hwords (Nat.le_of_add_le_add_right h.2)]
      cases wholeGroup? after with
      | none => exact gives_pure none
      | some inner =>
        dsimp only
        rw [if_neg fun h => hwords (by simpa using h.1)]
        exact gives_pure none

theorem gives_keyword? (line : Nat) (tokens : List Token) :
    Gives (keyword? line tokens) (Form.tree? line (Form.keyword? tokens)) := by
  unfold keyword? Form.keyword?
  cases tokens.find? Token.blockKeywords.contains with
  | none => exact gives_pure none
  | some keyword =>
    dsimp only [Option.map_some, Form.tree?]
    split
    · exact gives_pure _
    · exact gives_throw _

/-! ## Steps with nested readings -/

/-- The nested readings of a statement end with the trees of what they read. -/
def Nests (line : Nat) (nested : List Token → Reading Node) (tokens : List Token) : Prop :=
  ∀ p, p <:+: tokens → p.length < tokens.length → Gives (nested p) (Node.ofTokens line p)

section

variable {line : Nat} {nested : List Token → Reading Node}

/-- What stands in parentheses after a name may be read. -/
theorem Nests.inner {callee : Token} {inner p : List Token}
    (h : Nests line nested (callee :: "(" :: (inner ++ [")"]))) (hp : p <:+: inner) :
    Gives (nested p) (Node.ofTokens line p) := by
  refine h p (hp.trans ⟨[callee, "("], [")"], rfl⟩) ?_
  have := hp.length_le
  simp only [List.length_cons, List.length_append]
  omega

theorem tree_leaf (line : Nat) (t : Token) : (Form.expressionOf [t]).tree line = (do
    let leaf ← atLine line (Leaf.read t)
    return .leaf (.ofLeaf leaf) line) := by
  rw [Form.expressionOf]
  cases Leaf.read t <;> rfl

theorem gives_call {callee : Token} {inner : List Token} (hfor : callee ≠ "for")
    (hnested : Nests line nested (callee :: "(" :: (inner ++ [")"]))) :
    Gives (call line nested (callee :: "(" :: (inner ++ [")"]))) ((Form.invoke (.read callee inner)).tree line) := by
  rw [call, Invocation.read, if_neg hfor]
  refine gives_lift rfl (@gives_inner _ [callee] inner _ _ _ rfl ?_)
  split
  · exact gives_pure _
  · show Gives _ ((Invocation.call callee (parts "," inner)).build line fun p _ => Node.ofTokens line p)
    rw [Invocation.build_call_eq]
    refine gives_lift (split?_eq "," inner) (Gives.bind (gives_mapM fun p hp => ?_) fun arguments => gives_pure _)
    split
    · exact gives_throw _
    · exact hnested.inner (isInfix_of_mem_parts hp)

theorem gives_call? {first : Token} {rest : List Token} (hfor : first ≠ "for")
    (hnested : Nests line nested (first :: rest)) :
    Gives (call? line nested (first :: rest)) (Form.tree? line (Form.call? (first :: rest))) := by
  rw [call?]
  split
  · rename_i hlength
    cases hcall : Form.call? (first :: rest) with
    | none => exact gives_pure none
    | some form =>
      obtain ⟨callee, inner, htokens, -⟩ := Form.call?_eq_some_iff.1 hcall
      rw [htokens] at hlength
      simp only [List.length_cons, List.length_append] at hlength
      omega
  · refine gives_lift rfl ?_
    rw [Form.call?]
    by_cases hcallee : first.isCallee = true
    · rw [if_pos hcallee]
      by_cases hopen : rest.head? = some "("
      · obtain ⟨ts, rfl⟩ := List.head?_eq_some_iff.1 hopen
        rw [if_pos ⟨hcallee, hopen⟩, List.tail_cons]
        refine gives_lift (closesAtEnd?_append [first] ts) ?_
        cases hgroup : wholeGroup? ts with
        | none => exact gives_pure none
        | some inner =>
          obtain rfl := eq_of_wholeGroup? hgroup
          exact (gives_call hfor hnested).map some
      · rw [if_neg fun h => hopen h.2]
        refine gives_lift (closesAtEnd?_of_ne ?_) (gives_pure none)
        rwa [List.head?_eq_getElem?] at hopen
    · rw [if_neg hcallee, if_neg fun h => hcallee h.1]
      exact gives_pure none

theorem gives_loop {rest : List Token} (hnested : Nests line nested ("for" :: rest)) :
    Gives (loop line nested ("for" :: rest)) ((Form.loop rest).tree line) := by
  rw [loop, Form.loop]
  by_cases hopen : rest.head? = some "("
  · obtain ⟨ts, rfl⟩ := List.head?_eq_some_iff.1 hopen
    rw [if_pos hopen, List.tail_cons]
    refine gives_lift (closesAtEnd?_append ["for"] ts) ?_
    cases hgroup : wholeGroup? ts with
    | none => exact gives_throw _
    | some inner =>
      obtain rfl := eq_of_wholeGroup? hgroup
      refine @gives_inner _ ["for"] inner _ _ _ rfl ?_
      obtain ⟨clauses, hclauses, hread⟩ := clausesBetween?_eq inner
      refine gives_lift hclauses ?_
      dsimp only
      rw [Invocation.read, if_pos rfl]
      by_cases hthree : clauses.length = 3
      · rw [if_pos hthree] at hread ⊢
        rw [hread]
        show Gives _ ((Invocation.loop clauses).build line fun p _ => Node.ofTokens line p)
        rw [Invocation.build_loop_eq]
        refine Gives.bind (gives_mapM fun p hp => ?_) fun arguments => gives_pure _
        split
        · exact gives_pure _
        · exact hnested.inner (Invocation.isInfix_of_mem_clauses? hread hp)
      · rw [if_neg hthree] at hread ⊢
        rw [hread]
        exact gives_throw _
  · rw [if_neg hopen]
    refine gives_lift (closesAtEnd?_of_ne ?_) (gives_throw _)
    rwa [List.head?_eq_getElem?] at hopen

theorem gives_transfer? {keyword : Token} {rest : List Token} (hnested : Nests line nested (keyword :: rest)) :
    Gives (transfer? line nested (keyword :: rest)) (Form.tree? line (Form.transfer? keyword rest)) := by
  refine gives_lift rfl (gives_lift (slice?_drop (Nat.le_add_left 1 _)) ?_)
  rw [List.drop_one, List.tail_cons]
  unfold Form.transfer?
  by_cases hreturn : keyword = "return"
  · rw [if_pos hreturn, if_pos hreturn]
    split
    · exact gives_pure _
    · have htree : Form.tree? line (some (.result rest)) =
          Node.ofTokens line rest >>= fun value => .ok (some (.apply (.call "return") line [value])) := by
        show ((Node.ofTokens line rest >>= _).map some) = _
        cases Node.ofTokens line rest <;> rfl
      rw [htree, hreturn]
      exact Gives.bind (hnested rest (List.infix_cons List.infix_rfl) (Nat.lt_succ_self _)) fun value => gives_pure _
  rw [if_neg hreturn, if_neg hreturn]
  by_cases hbreak : keyword = "break" ∨ keyword = "continue"
  · rw [if_pos hbreak, if_pos hbreak]
    split
    · exact gives_pure _
    · exact gives_throw _
  rw [if_neg hbreak, if_neg hbreak]
  by_cases hgoto : keyword = "goto" ∨ keyword = "comefrom"
  · rw [if_pos hgoto, if_pos hgoto]
    rcases rest with _ | ⟨label, _ | ⟨_, _⟩⟩
    · exact gives_throw _
    · dsimp only
      split
      · exact gives_pure _
      · exact gives_throw _
    · exact gives_throw _
  · rw [if_neg hgoto, if_neg hgoto]
    exact gives_pure none

theorem gives_declarator {tokens : List Token} {place : Nat} (type : String) (hplace : place ≤ tokens.length)
    (hnested : Nests line nested tokens) :
    Gives (declarator line nested tokens type place) ((Form.declaration type (tokens.drop place)).tree line) := by
  have hdrop : tokens.drop (place + ((tokens.drop place).takeWhile (· = "*")).length) =
      (tokens.drop place).dropWhile (· = "*") := by
    rw [← List.drop_drop, drop_takeWhile]
  rw [declarator, Form.declaration]
  refine gives_lift (slice?_drop hplace) ?_
  generalize ((tokens.drop place).takeWhile (· = "*")).length = stars at *
  dsimp only
  rw [← List.head?_drop, hdrop]
  cases hname : (tokens.drop place).dropWhile (· = "*") with
  | nil => exact gives_throw _
  | cons name more =>
    rw [hname] at hdrop
    dsimp only [List.head?_cons]
    split
    · exact gives_throw _
    have hmore : slice? tokens (place + stars + 1) tokens.length = some more := by
      rw [slice?_drop, ← List.drop_drop, hdrop]
      · rfl
      · have := congrArg List.length hdrop
        simp only [List.length_drop, List.length_cons] at this
        omega
    refine gives_lift hmore ?_
    cases more with
    | nil => exact gives_pure _
    | cons sign value =>
      dsimp only
      split
      · have hvalue : value <:+: tokens :=
          (List.infix_cons (List.infix_cons List.infix_rfl)).trans (hdrop ▸ (List.drop_suffix _ tokens).isInfix)
        refine Gives.bind (hnested value hvalue ?_) fun value => gives_pure _
        have := congrArg List.length hdrop
        simp only [List.length_drop, List.length_cons] at this
        omega
      · exact gives_throw _

theorem gives_declaration? {tokens : List Token} (hnested : Nests line nested tokens) :
    Gives (declaration? line nested tokens) (Form.tree? line (Form.declaration? tokens)) := by
  have htokens : (tokens.take 4).takeWhile Token.declarationWords.contains ++
      tokens.drop ((tokens.take 4).takeWhile Token.declarationWords.contains).length = tokens :=
    List.prefix_iff_eq_append.1 ((List.takeWhile_prefix _).trans (List.take_prefix 4 tokens))
  rw [declaration?, Form.declaration?]
  generalize (tokens.take 4).takeWhile Token.declarationWords.contains = words at *
  rcases words.eq_nil_or_concat with rfl | ⟨front, type, rfl⟩
  · exact gives_pure none
  rw [List.concat_eq_append] at htokens ⊢
  have hlength : (front ++ [type]).length = front.length + 1 := List.length_append
  rw [List.getLast?_concat]
  cases hrest : tokens.drop (front ++ [type]).length with
  | nil =>
    rw [hrest, List.append_nil] at htokens
    rw [if_pos (.inr (congrArg List.length htokens))]
    exact gives_pure none
  | cons next rest =>
    have hplace : (front ++ [type]).length < tokens.length := by
      have := congrArg List.length hrest
      simp only [List.length_drop, List.length_cons] at this
      omega
    have htype : tokenAt? tokens front.length = some type := by
      rw [tokenAt?, ← htokens]
      simp
    have hnext : tokenAt? tokens (front ++ [type]).length = some next := by
      rw [tokenAt?, ← List.head?_drop, hrest]
      rfl
    have hafter : tokens.drop ((front ++ [type]).length + 1) = rest := by
      rw [← List.drop_drop, hrest]
      rfl
    rw [if_neg (by omega)]
    refine gives_lift (hlength ▸ minus?_add _ 1) (gives_lift htype ?_)
    dsimp only
    by_cases hstruct : type = "struct"
    · rw [if_pos hstruct, if_pos hstruct]
      refine gives_lift hnext ?_
      have hdeclarator := gives_declarator ("struct " ++ next) (Nat.succ_le_of_lt hplace) hnested
      rw [hafter] at hdeclarator
      exact hdeclarator.map some
    · rw [if_neg hstruct, if_neg hstruct, ← hrest]
      exact (gives_declarator type (Nat.le_of_lt hplace) hnested).map some

/-! ## Expressions -/

/-- A name and a group in parentheses after it are read as a call. -/
theorem ofTokens_call {callee : Token} {inner : List Token} (hfor : callee ≠ "for") (hcallee : callee.isCallee = true)
    (hgroup : wholeGroup? (inner ++ [")"]) = some inner) :
    Form.ofTokens (callee :: "(" :: (inner ++ [")"])) = .invoke (.read callee inner) := by
  have hname : callee ≠ "(" := by
    rintro rfl
    exact absurd hcallee (by decide)
  have hfunction : Form.function? (callee :: "(" :: (inner ++ [")"])) = none := by
    rw [Form.function?, List.takeWhile_cons_of_pos (by simpa using hname), List.takeWhile_cons_of_neg (by simp)]
    rfl
  rw [Form.ofTokens, if_neg hfor, hfunction, Form.call?_eq_some_iff.2 ⟨callee, inner, rfl, hcallee, hgroup, rfl⟩]
  rfl

/-- What the reader sees at a place: the token there, and the one after it. -/
theorem places_append (before : List Token) (t : Token) (ts : List Token) :
    before.length < (before ++ t :: ts).length ∧ tokenAt? (before ++ t :: ts) before.length = some t ∧
      (before ++ t :: ts)[before.length + 1]? = ts.head? := by
  refine ⟨by simp, by simp [tokenAt?], ?_⟩
  rw [List.getElem?_append_right (Nat.le_add_right ..), Nat.add_sub_cancel_left, List.getElem?_cons_succ,
    List.head?_eq_getElem?]

theorem matching?_after (before : List Token) (t : Token) (ts : List Token) :
    matching? (before ++ t :: "(" :: ts) (before.length + 1) =
      (closeGroup? 0 ts).map fun p => before.length + 2 + p.1.length := by
  have := matching?_append (before ++ [t]) ts
  rwa [List.append_assoc, List.length_append] at this

/-- A call inside of an expression is shorter than the expression, which is no call itself. -/
theorem length_call_lt {before inner rest : List Token} {callee : Token}
    (h : Form.call? (before ++ callee :: "(" :: (inner ++ ")" :: rest)) = none) (hcallee : callee.isCallee = true)
    (hgroup : wholeGroup? (inner ++ [")"]) = some inner) :
    (callee :: "(" :: (inner ++ [")"])).length < (before ++ callee :: "(" :: (inner ++ ")" :: rest)).length := by
  by_contra hlength
  simp only [List.length_append, List.length_cons, List.length_nil] at hlength
  obtain rfl : before = [] := List.eq_nil_of_length_eq_zero (by omega)
  obtain rfl : rest = [] := List.eq_nil_of_length_eq_zero (by omega)
  rw [List.nil_append, Form.call?_eq_some_iff.2 ⟨callee, inner, rfl, hcallee, hgroup, rfl⟩] at h
  cases h

theorem pieces_open {tokens : List Token} {place : Nat} {t : Token} (hplace : place < tokens.length)
    (htoken : tokenAt? tokens place = some t) (hopen : t.isCallee = true ∧ tokens[place + 1]? = some "(") :
    pieces line nested tokens place =
      (matching? tokens (place + 1)).elim (throw (.malformed line (.argumentsNotClosed t))) fun close => do
        let tree ← nested (← slice? tokens place (close + 1))
        return .call tree :: (← pieces line nested tokens (close + 1)) := by
  rw [pieces, dif_pos hplace, htoken]
  show (if t.isCallee = true ∧ tokens[place + 1]? = some "(" then _ else _) = _
  rw [if_pos hopen]
  split
  · rename_i hmatching
    rw [hmatching]
    rfl
  · rename_i close hmatching
    rw [hmatching]
    rfl

/-- By induction on the scan: `before` has been read, and `ts` is left. -/
theorem gives_pieces {tokens before ts : List Token} (hcall : Form.call? tokens = none) (hfor : "for" ∉ tokens)
    (hnested : Nests line nested tokens) (htokens : tokens = before ++ ts) :
    Gives (pieces line nested tokens before.length) ((Item.scan ts).mapM (Item.piece line)) := by
  fun_induction Item.scan ts generalizing before with
  | case1 =>
    rw [pieces, dif_neg (by rw [htokens, List.append_nil]; exact Nat.lt_irrefl _)]
    exact gives_pure []
  | case2 t ts hopen inner rest hclose ih =>
    obtain ⟨ts, rfl⟩ := List.head?_eq_some_iff.1 hopen.2
    rw [List.tail_cons] at hclose
    obtain ⟨rfl, -⟩ := closeGroup?_eq_some hclose
    have hgroup : wholeGroup? (inner ++ [")"]) = some inner := wholeGroup?_eq_some.2 (closeGroup?_of_close hclose [])
    have hmatching := matching?_after before t (inner ++ ")" :: rest)
    obtain ⟨hplace, htoken, hnext⟩ := places_append before t ("(" :: (inner ++ ")" :: rest))
    have hshorter := length_call_lt (htokens ▸ hcall) hopen.1 hgroup
    rw [← htokens] at hmatching hplace htoken hnext hshorter
    have hslice : slice? tokens before.length (before.length + 2 + inner.length + 1) =
        some (t :: "(" :: (inner ++ [")"])) :=
      @slice?_eq_some _ _ _ rest _ _ (by simp [htokens]) rfl (by simp; omega)
    have htree : Item.piece line (.invoke (.read t inner)) =
        Piece.call <$> Node.ofTokens line (t :: "(" :: (inner ++ [")"])) := by
      rw [ofTokens_eq_tree, ofTokens_call (fun h => hfor (by simp [htokens, h])) hopen.1 hgroup]
      rfl
    -- the call is read from its slice alone, the rest from the place after it
    have hread := hnested _ ⟨before, rest, by simp [htokens]⟩ hshorter
    have hrest := @ih (before ++ t :: "(" :: (inner ++ [")"])) (by simp [htokens])
    have hlength : (before ++ t :: "(" :: (inner ++ [")"])).length = before.length + 2 + inner.length + 1 := by
      simp only [List.length_append, List.length_cons, List.length_nil]
      omega
    rw [hlength] at hrest
    rw [pieces_open hplace htoken ⟨hopen.1, hnext⟩, hmatching, hclose, List.mapM_cons, htree, bind_map_left]
    exact gives_lift hslice (Gives.bind hread fun tree => Gives.bind hrest fun pieces => gives_pure _)
  | case3 t ts hopen hclose =>
    obtain ⟨ts, rfl⟩ := List.head?_eq_some_iff.1 hopen.2
    rw [List.tail_cons] at hclose
    have hmatching := matching?_after before t ts
    obtain ⟨hplace, htoken, hnext⟩ := places_append before t ("(" :: ts)
    rw [← htokens] at hmatching hplace htoken hnext
    rw [pieces_open hplace htoken ⟨hopen.1, hnext⟩, hmatching, hclose]
    exact gives_throw _
  | case4 t ts hopen ih =>
    obtain ⟨hplace, htoken, hnext⟩ := places_append before t ts
    rw [← htokens] at hplace htoken hnext
    rw [pieces, dif_pos hplace]
    refine gives_lift htoken ?_
    rw [hnext, if_neg hopen, List.mapM_cons]
    have hrest := @ih (before ++ [t]) (by rw [htokens, List.append_assoc]; rfl)
    rw [List.length_append] at hrest
    exact Gives.bind hrest fun pieces => gives_pure _

theorem mapM_range {β : Type} {f : Nat → Option β} {ys : List β} (h : ∀ k, k < ys.length → f k = ys[k]?) :
    (List.range ys.length).mapM f = some ys := by
  induction ys generalizing f with
  | nil => rfl
  | cons y ys ih =>
    have hrest := ih (f := fun k => f (k + 1)) fun k hk => h (k + 1) (Nat.succ_lt_succ hk)
    rw [List.length_cons, List.range_succ_eq_map, List.mapM_cons, List.mapM_map, h 0 (Nat.zero_lt_succ _)]
    show ((List.range ys.length).mapM (fun k => f (k + 1)) >>= fun rest => some (y :: rest)) = _
    rw [hrest]
    rfl

/-- Each piece but the first is marked by the piece before it. -/
theorem getElem?_markPieces {first : Bool} {pieces : List Piece} {k : Nat} (h : k + 1 < pieces.length) :
    ((markPieces first pieces).map (·.2))[k + 1]? = pieces[k]?.map Piece.leavesOperandMissing := by
  induction pieces generalizing first k with
  | nil => cases h
  | cons p pieces ih =>
    rw [markPieces, List.map_cons, List.getElem?_cons_succ]
    cases k with
    | zero =>
      cases pieces with
      | nil => exact absurd h (by simp)
      | cons q pieces => rfl
    | succ k => exact ih (Nat.lt_of_succ_lt_succ h)

theorem length_markPieces (first : Bool) (pieces : List Piece) : (markPieces first pieces).length = pieces.length := by
  induction pieces generalizing first with
  | nil => rfl
  | cons p pieces ih => exact congrArg (· + 1) (ih _)

theorem marks?_eq (pieces : List Piece) : marks? pieces = some ((markPieces true pieces).map (·.2)) := by
  have hlength : pieces.length = ((markPieces true pieces).map (·.2)).length := by
    rw [List.length_map, length_markPieces]
  rw [marks?, hlength]
  refine mapM_range fun k hk => ?_
  rw [← hlength] at hk
  cases k with
  | zero =>
    cases pieces with
    | nil => cases hk
    | cons p pieces => rfl
  | succ k =>
    rw [getElem?_markPieces hk, if_neg (Nat.succ_ne_zero k), minus?_add, Option.bind_eq_bind, Option.bind_some]
    cases pieces[k]? <;> rfl

theorem zip_marks (first : Bool) (pieces : List Piece) :
    pieces.zip ((markPieces first pieces).map (·.2)) = markPieces first pieces := by
  induction pieces generalizing first with
  | nil => rfl
  | cons p pieces ih => exact congrArg _ (ih _)

theorem gives_expression {first second : Token} {rest : List Token}
    (hcall : Form.call? (first :: second :: rest) = none) (hfor : "for" ∉ first :: second :: rest)
    (hnested : Nests line nested (first :: second :: rest)) :
    Gives (expression line nested (first :: second :: rest))
      ((Form.expressionOf (first :: second :: rest)).tree line) := by
  show Gives _ ((Form.expression (Item.scan (first :: second :: rest))).build line fun p _ => Node.ofTokens line p)
  rw [build_expression]
  refine Gives.bind (@gives_pieces _ _ _ [] _ hcall hfor hnested rfl) fun pieces => gives_lift (marks?_eq pieces) ?_
  rw [zip_marks]
  exact gives_ofExcept _

/-! ## The statement -/

theorem getD_orElse (a b : Option Form) (f : Form) : (a <|> b).getD f = a.getD (b.getD f) := by
  cases a <;> rfl

theorem gives_statement {tokens : List Token} (hnested : Nests line nested tokens) :
    Gives (statement line nested tokens) (Node.ofTokens line tokens) := by
  rw [ofTokens_eq_tree]
  cases tokens with
  | nil => exact gives_throw _
  | cons first rest =>
    rw [statement, Form.ofTokens]
    by_cases hfor : first = "for"
    · subst hfor
      exact gives_loop hnested
    rw [if_neg hfor, if_neg hfor]
    simp only [getD_orElse]
    refine gives_firstOf (gives_function? line _) fun _ => gives_firstOf (gives_call? hfor hnested) fun hcall => ?_
    refine gives_firstOf (gives_transfer? hnested) fun _ => gives_firstOf (gives_declaration? hnested) fun _ => ?_
    refine gives_firstOf (gives_keyword? line _) fun hkeyword => ?_
    -- the calls of an expression are then no loops, and none of them is the whole statement
    have hwords : "for" ∉ first :: rest := fun hmem =>
      absurd (List.find?_eq_none.1 (Option.map_eq_none_iff.1 hkeyword) "for" hmem) (by decide)
    cases rest with
    | nil =>
      rw [tree_leaf]
      exact Gives.bind (gives_ofExcept _) fun leaf => gives_pure _
    | cons second rest => exact gives_expression hcall hwords hnested

end

theorem gives_read (line : Nat) (tokens : List Token) : Gives (read line tokens) (Node.ofTokens line tokens) := by
  rw [read]
  refine gives_statement fun p hp hlength => ?_
  rw [dif_pos ⟨hp, hlength⟩]
  exact gives_read line p
termination_by tokens.length

/-- The reader by places never strays: every place and slice that it asks for is there, and whatever it reads as a
statement of its own is a shorter slice of the statement. It ends with the tree of the statement or with its error,
whose parts are such slices too. -/
theorem read_eq_ofTokens (line : Nat) (tokens : List Token) :
    (read line tokens).run = some (Node.ofTokens line tokens) ∧
      ∀ p ∈ (Form.ofTokens tokens).parts, p <:+: tokens ∧ p.length < tokens.length :=
  ⟨gives_read line tokens, fun _ hp => ⟨Form.isInfix_of_mem_parts hp, Form.length_lt_of_mem_parts hp⟩⟩

end ByPlaces

end WordMachine.Cflat
