/-
Tokens by their places. A slice is taken only where the list has it; the places of closing parentheses and of
separators then give the same groups and parts as reading from left to right, and every part is a slice.
-/
import WordMachine.Proofs.Cflat.Shapes

namespace WordMachine.Cflat

/-! ## Slices -/

/-- The token at place `i`, if the list has this place. -/
def tokenAt? (ts : List Token) (i : Nat) : Option Token := ts[i]?

/-- The tokens from place `i` up to place `j`, if the list has these places in this order. -/
def slice? (ts : List Token) (i j : Nat) : Option (List Token) :=
  if i ≤ j ∧ j ≤ ts.length then some ((ts.take j).drop i) else none

/-- A place some tokens before another, if there are as many. -/
def minus? (i j : Nat) : Option Nat := if j ≤ i then some (i - j) else none

theorem slice?_eq_some {ts before inner after : List Token} {i j : Nat} (hts : ts = before ++ (inner ++ after))
    (hi : i = before.length) (hj : j = i + inner.length) : slice? ts i j = some inner := by
  subst hts hj hi
  rw [slice?, if_pos (by simp only [List.length_append]; omega), List.take_append, List.take_of_length_le (by omega),
    Nat.add_sub_cancel_left, List.take_left, List.drop_left]

theorem slice?_drop {ts : List Token} {i : Nat} (h : i ≤ ts.length) : slice? ts i ts.length = some (ts.drop i) := by
  rw [slice?, if_pos ⟨h, Nat.le_refl _⟩, List.take_length]

theorem minus?_add (i j : Nat) : minus? (i + j) j = some i := by
  rw [minus?, if_pos (Nat.le_add_left ..), Nat.add_sub_cancel]

/-! ## Groups -/

/-- Where a group ends does not depend on what comes after it. -/
theorem closeGroup?_of_close {depth : Nat} {ts inner rest : List Token} (h : closeGroup? depth ts = some (inner, rest))
    (rest' : List Token) : closeGroup? depth (inner ++ ")" :: rest') = some (inner, rest') := by
  induction ts generalizing depth inner with
  | nil => cases h
  | cons t ts ih =>
    by_cases hopen : t = "("
    · subst hopen
      rw [closeGroup?_open] at h
      obtain ⟨⟨inner, _⟩, hclose, ⟨⟩⟩ := Option.map_eq_some_iff.1 h
      rw [List.cons_append, closeGroup?_open, ih hclose]
      rfl
    by_cases hclosed : t = ")"
    · subst hclosed
      cases depth with
      | zero =>
        rw [closeGroup?_close_zero] at h
        cases h
        exact closeGroup?_close_zero rest'
      | succ depth =>
        rw [closeGroup?_close_succ] at h
        obtain ⟨⟨inner, _⟩, hclose, ⟨⟩⟩ := Option.map_eq_some_iff.1 h
        rw [List.cons_append, closeGroup?_close_succ, ih hclose]
        rfl
    · rw [closeGroup?_token hopen hclosed] at h
      obtain ⟨⟨inner, _⟩, hclose, ⟨⟩⟩ := Option.map_eq_some_iff.1 h
      rw [List.cons_append, closeGroup?_token hopen hclosed, ih hclose]
      rfl

/-- The place of the parenthesis that closes the outermost of `depth` open groups, for tokens from `place` on. -/
def closing? (place depth : Nat) : List Token → Option Nat
  | [] => none
  | t :: ts =>
    if t = "(" then closing? (place + 1) (depth + 1) ts
    else if t = ")" then
      match depth with
      | 0 => none
      | 1 => some place
      | depth + 2 => closing? (place + 1) (depth + 1) ts
    else closing? (place + 1) depth ts

/-- The place of the parenthesis that closes the group opened at `start`. -/
def matching? (ts : List Token) (start : Nat) : Option Nat := closing? start 0 (ts.drop start)

theorem closing?_succ (place depth : Nat) (ts : List Token) :
    closing? place (depth + 1) ts = (closeGroup? depth ts).map fun p => place + p.1.length := by
  induction ts generalizing place depth with
  | nil => rfl
  | cons t ts ih =>
    have step (d : Nat) : closing? (place + 1) (d + 1) ts =
        ((closeGroup? d ts).map fun p => (t :: p.1, p.2)).map fun p => place + p.1.length := by
      rw [ih, Option.map_map]
      congr 1
      funext p
      simp only [Function.comp, List.length_cons]
      omega
    rw [closing?.eq_def, closeGroup?.eq_def]
    dsimp only
    split
    · exact step (depth + 1)
    split
    · cases depth with
      | zero => rfl
      | succ depth => exact step depth
    · exact step depth

theorem le_of_closing? {place depth close : Nat} {ts : List Token} (h : closing? place depth ts = some close) :
    place ≤ close := by
  fun_induction closing? place depth ts with
  | case1 => cases h
  | case2 _ _ _ ih => exact Nat.le_of_succ_le (ih h)
  | case3 => cases h
  | case4 => cases h; exact Nat.le_refl _
  | case5 _ _ _ _ ih => exact Nat.le_of_succ_le (ih h)
  | case6 _ _ _ _ _ _ ih => exact Nat.le_of_succ_le (ih h)

theorem matching?_append (before ts : List Token) :
    matching? (before ++ "(" :: ts) before.length = (closeGroup? 0 ts).map fun p => before.length + 1 + p.1.length := by
  rw [matching?, List.drop_left, closing?, if_pos rfl, closing?_succ]

/-- Is there a group that is opened at `start` and that the last token closes? -/
def closesAtEnd? (ts : List Token) (start : Nat) : Option Bool :=
  if ts[start]? = some "(" then (minus? ts.length 1).map fun last => decide (matching? ts start = some last)
  else some false

theorem closesAtEnd?_append (before ts : List Token) :
    closesAtEnd? (before ++ "(" :: ts) before.length = some (wholeGroup? ts).isSome := by
  have hlast : (before ++ "(" :: ts).length = (before.length + ts.length) + 1 := by
    rw [List.length_append, List.length_cons, Nat.add_assoc]
  rw [closesAtEnd?, if_pos (by simp), hlast, minus?_add, matching?_append, Option.map_some, wholeGroup?]
  cases hclose : closeGroup? 0 ts with
  | none => rfl
  | some p =>
    obtain ⟨inner, rest⟩ := p
    have hlength := length_closeGroup? hclose
    cases rest with
    | nil =>
      simp only [List.length_nil] at hlength
      simp only [Option.map_some, Option.some.injEq, Option.isSome_some, decide_eq_true_iff]
      omega
    | cons t rest =>
      simp only [List.length_cons] at hlength
      simp only [Option.map_some, Option.some.injEq, Option.isSome_none, decide_eq_false_iff_not]
      omega

theorem closesAtEnd?_of_ne {ts : List Token} {start : Nat} (h : ts[start]? ≠ some "(") :
    closesAtEnd? ts start = some false := if_neg h

/-! ## Separators -/

/-- The places of the separators outside parentheses, for tokens from `place` on. -/
def separatorPlaces (separator : Token) (place depth : Nat) : List Token → List Nat
  | [] => []
  | t :: ts =>
    let rest := separatorPlaces separator (place + 1) (nextDepth depth t) ts
    if t = separator ∧ depth = 0 ∧ t ≠ "(" ∧ t ≠ ")" then place :: rest else rest

/-- The places of the separators before some parts, the first of them at `place`. -/
def partPlaces (place : Nat) : List (List Token) → List Nat
  | [] => []
  | part :: parts => place :: partPlaces (place + 1 + part.length) parts

theorem separatorPlaces_eq (separator : Token) (place depth : Nat) (ts : List Token) :
    separatorPlaces separator place depth ts =
      partPlaces (place + (splitTop separator depth ts).1.length) (splitTop separator depth ts).2 := by
  induction ts generalizing place depth with
  | nil => rfl
  | cons t ts ih =>
    simp only [separatorPlaces, splitTop, ih]
    split
    · rfl
    · rw [List.length_cons, Nat.add_assoc, Nat.add_comm 1]

theorem partPlaces_concat (separator : Token) (place : Nat) (parts : List (List Token)) (last : List Token) :
    partPlaces place (parts ++ [last]) = partPlaces place parts ++ [place + (separated separator parts).length] := by
  induction parts generalizing place with
  | nil => rfl
  | cons part parts ih =>
    have hlength : (separated separator (part :: parts)).length =
        1 + part.length + (separated separator parts).length := by
      rw [separated, List.flatMap_cons, List.length_append, List.length_cons, Nat.add_comm part.length]
      rfl
    rw [List.cons_append, partPlaces, partPlaces, ih, List.cons_append, hlength, ← Nat.add_assoc, ← Nat.add_assoc]

/-- The slices between places, the first of them from `start` on. -/
def slicesBetween? (ts : List Token) (start : Nat) : List Nat → Option (List (List Token))
  | [] => (slice? ts start ts.length).map ([·])
  | place :: places => do return (← slice? ts start place) :: (← slicesBetween? ts (place + 1) places)

theorem slicesBetween?_partPlaces {separator : Token} {ts before first : List Token} {parts : List (List Token)}
    (h : ts = before ++ (first ++ separated separator parts)) :
    slicesBetween? ts before.length (partPlaces (before.length + first.length) parts) = some (first :: parts) := by
  induction parts generalizing before first with
  | nil =>
    have hlength : ts.length = before.length + first.length := by simp [h, separated]
    rw [partPlaces, slicesBetween?, hlength, slice?_eq_some h rfl rfl]
    rfl
  | cons part parts ih =>
    have hnext : ts = (before ++ first ++ [separator]) ++ (part ++ separated separator parts) := by
      simp [h, separated]
    have hplace : (before ++ first ++ [separator]).length = before.length + first.length + 1 := by
      rw [List.length_append, List.length_append, List.length_singleton]
    have ih := ih hnext
    rw [hplace] at ih
    rw [partPlaces, slicesBetween?, slice?_eq_some h rfl rfl, ih]
    rfl

/-- The slices between the separators outside parentheses. -/
def split? (separator : Token) (ts : List Token) : Option (List (List Token)) :=
  slicesBetween? ts 0 (separatorPlaces separator 0 0 ts)

theorem split?_eq (separator : Token) (ts : List Token) : split? separator ts = some (parts separator ts) := by
  rw [split?, separatorPlaces_eq]
  exact @slicesBetween?_partPlaces _ _ [] _ _ (splitTop_join separator 0 ts).symm

/-! ## Clauses -/

/-- The slices before the first and after the last of some places, and the one between the two. -/
def outerSlices? (ts : List Token) (places : List Nat) : Option (List (List Token)) :=
  match places.head?, places.getLast? with
  | some first, some last =>
    if first = last then some []
    else do return [← slice? ts 0 first, ← slice? ts (first + 1) last, ← slice? ts (last + 1) ts.length]
  | _, _ => some []

theorem outerSlices?_partPlaces {separator : Token} {ts first part last : List Token} {middle : List (List Token)}
    (h : ts = first ++ separated separator (part :: middle ++ [last])) :
    outerSlices? ts (partPlaces first.length (part :: middle ++ [last])) =
      some [first, part ++ separated separator middle, last] := by
  have hbetween : separated separator (part :: middle) = separator :: (part ++ separated separator middle) := rfl
  have hafter : ts = first ++ separated separator (part :: middle) ++ [separator] ++ (last ++ []) := by
    simp [h, separated]
  have hmiddle : ts = (first ++ [separator]) ++ ((part ++ separated separator middle) ++ separator :: last) := by
    simp [h, separated]
  have hlength := congrArg List.length hafter
  have hfirst : first.length ≠ first.length + (separated separator (part :: middle)).length := by
    rw [hbetween, List.length_cons]
    omega
  rw [hbetween] at hafter hlength hfirst
  simp only [List.length_append, List.length_cons, List.length_nil] at hlength
  rw [outerSlices?, partPlaces_concat separator, List.getLast?_concat, hbetween]
  dsimp only [partPlaces, List.cons_append, List.head?_cons]
  have hslices : slice? ts 0 first.length = some first ∧
      slice? ts (first.length + 1) (first.length + (separator :: (part ++ separated separator middle)).length) =
        some (part ++ separated separator middle) ∧
      slice? ts (first.length + (separator :: (part ++ separated separator middle)).length + 1) ts.length =
        some last := by
    refine ⟨@slice?_eq_some _ [] _ _ _ _ h rfl (Nat.zero_add _).symm, slice?_eq_some hmiddle ?_ ?_,
      slice?_eq_some hafter ?_ ?_⟩
    all_goals grind
  rw [if_neg hfirst, hslices.1, hslices.2.1, hslices.2.2]
  rfl

/-- The clauses of a loop, by the places of their separators. -/
def clausesBetween? (inner : List Token) : Option (List (List Token)) :=
  if (separatorPlaces ";" 0 0 inner).isEmpty then outerSlices? inner (separatorPlaces "," 0 0 inner)
  else split? ";" inner

theorem isEmpty_separatorPlaces (separator : Token) (ts : List Token) :
    (separatorPlaces separator 0 0 ts).isEmpty = !hasTop separator ts := by
  rw [separatorPlaces_eq, hasTop]
  cases (splitTop separator 0 ts).2 <;> rfl

/-- Without semicolons, a loop has three clauses if there are two commas. -/
theorem Invocation.clauses?_commas {inner : List Token} (h : hasTop ";" inner = false) :
    (splitTop "," 0 inner).2.length < 2 ∧ clauses? inner = none ∨
      ∃ part middle last, (splitTop "," 0 inner).2 = part :: middle ++ [last] ∧
        clauses? inner = some [(splitTop "," 0 inner).1, part ++ separated "," middle, last] := by
  rw [clauses?, h]
  rcases (splitTop "," 0 inner).2.eq_nil_or_concat with hrest | ⟨front, last, hrest⟩
  · exact .inl (by rw [hrest]; exact ⟨Nat.zero_lt_two, rfl⟩)
  rw [List.concat_eq_append] at hrest
  cases front with
  | nil => exact .inl (by rw [hrest]; exact ⟨Nat.one_lt_two, rfl⟩)
  | cons part middle =>
    refine .inr ⟨part, middle, last, hrest, ?_⟩
    dsimp only
    rw [if_neg Bool.false_ne_true, hrest, List.getLast?_concat, List.dropLast_concat]
    simp [separated]

theorem clausesBetween?_eq (inner : List Token) : ∃ clauses, clausesBetween? inner = some clauses ∧
    Invocation.clauses? inner = if clauses.length = 3 then some clauses else none := by
  rw [clausesBetween?, isEmpty_separatorPlaces]
  cases htop : hasTop ";" inner with
  | true => exact ⟨parts ";" inner, split?_eq ";" inner, by rw [Invocation.clauses?, htop]; rfl⟩
  | false =>
    rw [Bool.not_false, if_pos rfl, separatorPlaces_eq, Nat.zero_add]
    rcases Invocation.clauses?_commas htop with ⟨hfew, hnone⟩ | ⟨part, middle, last, hrest, hsome⟩
    · refine ⟨[], ?_, hnone⟩
      rcases hrest : (splitTop "," 0 inner).2 with _ | ⟨part, _ | _⟩
      · rfl
      · exact if_pos rfl
      · exact absurd hfew (by simp [hrest])
    · have hjoin := (splitTop_join "," 0 inner).symm
      rw [hrest] at hjoin ⊢
      exact ⟨_, outerSlices?_partPlaces hjoin, hsome⟩

/-! ## Parts are slices -/

theorem isInfix_of_mem_separated {separator : Token} {parts : List (List Token)} {p : List Token} (hp : p ∈ parts) :
    p <:+: separated separator parts := by
  obtain ⟨before, after, rfl⟩ := List.append_of_mem hp
  exact ⟨separated separator before ++ [separator], separated separator after, by simp [separated]⟩

theorem isInfix_of_mem_parts {separator : Token} {ts p : List Token} (hp : p ∈ parts separator ts) : p <:+: ts := by
  rw [← splitTop_join separator 0 ts]
  rcases List.mem_cons.1 hp with rfl | hp
  · exact (List.prefix_append _ _).isInfix
  · exact (isInfix_of_mem_separated hp).trans (List.suffix_append _ _).isInfix

theorem Invocation.isInfix_of_mem_clauses? {inner p : List Token} {clauses : List (List Token)}
    (h : clauses? inner = some clauses) (hp : p ∈ clauses) : p <:+: inner := by
  cases htop : hasTop ";" inner with
  | true =>
    rw [clauses?, htop, if_pos rfl] at h
    dsimp only at h
    split at h
    · cases h
      exact isInfix_of_mem_parts hp
    · cases h
  | false =>
    rcases clauses?_commas htop with ⟨-, hnone⟩ | ⟨part, middle, last, hrest, hsome⟩
    · rw [h] at hnone
      cases hnone
    · rw [h] at hsome
      cases hsome
      have hjoin := (splitTop_join "," 0 inner).symm
      rw [hrest] at hjoin
      simp only [List.mem_cons, List.not_mem_nil, or_false] at hp
      rcases hp with rfl | rfl | rfl
      · exact isInfix_of_mem_parts (List.mem_cons_self ..)
      · exact ⟨(splitTop "," 0 inner).1 ++ [","], "," :: last, Eq.trans (by simp [separated]) hjoin.symm⟩
      · exact isInfix_of_mem_parts (List.mem_cons_of_mem _ (by rw [hrest]; simp))

theorem Invocation.isInfix_of_mem_read {callee : Token} {inner p : List Token}
    (hp : p ∈ (read callee inner).parts) : p <:+: inner := by
  unfold read at hp
  repeat' split at hp
  · exact isInfix_of_mem_clauses? ‹_› hp
  · cases hp
  · cases hp
  · exact isInfix_of_mem_parts hp

theorem Item.isInfix_of_mem_scan {tokens p : List Token} {item : Item} (hi : item ∈ scan tokens)
    (hp : p ∈ item.parts) : p <:+: tokens := by
  fun_induction scan tokens with
  | case1 => cases hi
  | case2 t ts h inner rest hclose ih =>
    obtain ⟨ts, rfl⟩ := List.head?_eq_some_iff.1 h.2
    obtain ⟨rfl, -⟩ := closeGroup?_eq_some hclose
    rcases List.mem_cons.1 hi with rfl | hi
    · exact (Invocation.isInfix_of_mem_read hp).trans ⟨[t, "("], ")" :: rest, by simp⟩
    · exact (ih hi).trans ⟨t :: "(" :: inner ++ [")"], [], by simp⟩
  | case3 t ts _ _ =>
    rcases List.mem_cons.1 hi with rfl | hi
    · cases hp
    · cases hi
  | case4 t ts _ ih =>
    rcases List.mem_cons.1 hi with rfl | hi
    · cases hp
    · exact List.infix_cons (ih hi)

namespace Form

theorem isInfix_of_mem_loop {rest p : List Token} (hp : p ∈ (loop rest).parts) : p <:+: rest := by
  unfold loop at hp
  split at hp
  · rename_i inner h
    split at h
    · rename_i hopen
      obtain ⟨ts, rfl⟩ := List.head?_eq_some_iff.1 hopen
      obtain rfl := eq_of_wholeGroup? h
      exact (Invocation.isInfix_of_mem_read hp).trans ⟨["("], [")"], rfl⟩
    · cases h
  · cases hp

theorem isInfix_of_mem_declaration {type : String} {rest p : List Token} (hp : p ∈ (declaration type rest).parts) :
    p <:+: rest := by
  unfold declaration at hp
  have hrest : rest.dropWhile (· = "*") <:+: rest := (List.dropWhile_suffix _).isInfix
  dsimp only at hp
  split at hp
  · cases hp
  · rename_i name more hmore
    rw [hmore] at hrest
    repeat' split at hp
    all_goals simp only [parts, List.not_mem_nil, List.mem_singleton] at hp
    subst hp
    exact (List.infix_cons (List.infix_cons List.infix_rfl)).trans hrest

theorem isInfix_of_call? {tokens p : List Token} {form : Form} (h : call? tokens = some form) (hp : p ∈ form.parts) :
    p <:+: tokens := by
  obtain ⟨callee, inner, rfl, -, -, rfl⟩ := call?_eq_some_iff.1 h
  exact (Invocation.isInfix_of_mem_read hp).trans ⟨[callee, "("], [")"], rfl⟩

theorem isInfix_of_transfer? {keyword : Token} {rest p : List Token} {form : Form}
    (h : transfer? keyword rest = some form) (hp : p ∈ form.parts) : p <:+: rest := by
  unfold transfer? at h
  repeat' split at h
  all_goals cases h
  all_goals simp only [parts, List.not_mem_nil, List.mem_singleton] at hp
  subst hp
  exact List.infix_rfl

theorem isInfix_of_declaration? {tokens p : List Token} {form : Form} (h : declaration? tokens = some form)
    (hp : p ∈ form.parts) : p <:+: tokens := by
  obtain ⟨words, type, next, rest, rfl, -, -, -, rfl⟩ := declaration?_eq_some_iff.1 h
  split at hp
  · exact (isInfix_of_mem_declaration hp).trans ⟨words ++ [type] ++ [next], [], by simp⟩
  · exact (isInfix_of_mem_declaration hp).trans (List.suffix_append _ _).isInfix

theorem isInfix_of_mem_expressionOf {tokens p : List Token} (hp : p ∈ (expressionOf tokens).parts) : p <:+: tokens := by
  unfold expressionOf at hp
  split at hp
  · split at hp <;> cases hp
  · obtain ⟨item, hi, hp⟩ := List.mem_flatMap.1 hp
    exact Item.isInfix_of_mem_scan hi hp

/-- What a statement is made of stands in the statement. -/
theorem isInfix_of_mem_parts {tokens p : List Token} (hp : p ∈ (ofTokens tokens).parts) : p <:+: tokens := by
  cases tokens with
  | nil => cases hp
  | cons first rest =>
    revert hp
    rw [ofTokens]
    split
    · exact fun hp => List.infix_cons (isInfix_of_mem_loop hp)
    · let P (form : Form) : Prop := p ∈ form.parts → p <:+: first :: rest
      refine getD_or (P := P) (fun _ h hp => ?_) ?_
      · rw [parts_of_function? h] at hp
        cases hp
      refine getD_or (P := P) (fun _ h hp => isInfix_of_call? h hp) ?_
      refine getD_or (P := P) (fun _ h hp => List.infix_cons (isInfix_of_transfer? h hp)) ?_
      refine getD_or (P := P) (fun _ h hp => isInfix_of_declaration? h hp) ?_
      cases hk : keyword? (first :: rest) with
      | none => exact isInfix_of_mem_expressionOf
      | some form =>
        intro hp
        rw [Option.getD_some, parts_of_keyword? hk] at hp
        cases hp

end Form

end WordMachine.Cflat
