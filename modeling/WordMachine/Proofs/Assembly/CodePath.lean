/-
The path through a program that follows its jumps over data and subroutines, and otherwise goes from
each word to the next. It leads through the words of the code in their order and to the word at the
end, and never into data or a subroutine.
-/
import WordMachine.Proofs.Assembly.SkipJump

namespace WordMachine.Assembly

/-! ## Paths -/

/-- The address after `a` on a path that follows the jumps at `slots` and no others. -/
def nextAddress (i : Image) (slots : List Nat) (a : Nat) : Nat :=
  if a ∈ slots then 4 * (i.wordAt? a).elim 0 fun w => w.addressField.toNat else a + 4

/-- From `a`, the addresses of the path lead to `b`, which is not among them. -/
def IsPath (next : Nat → Nat) : Nat → List Nat → Nat → Prop
  | a, [], b => a = b
  | a, x :: path, b => x = a ∧ IsPath next (next a) path b

theorem isPath_append {next : Nat → Nat} {b c : Nat} {path' : List Nat} (h' : IsPath next b path' c) :
    ∀ {path : List Nat} {a : Nat}, IsPath next a path b → IsPath next a (path ++ path') c
  | [], _, h => by cases h; exact h'
  | _ :: _, _, ⟨hx, h⟩ => ⟨hx, isPath_append h' h⟩

/-! ## Words of the code -/

/-- Words in a row with their addresses. -/
def numbered (a : Nat) : List Word → List (Nat × Word)
  | [] => []
  | w :: words => (a, w) :: numbered (a + 4) words

/-- The words of a statement with their addresses, if it is an instruction of the code. -/
def Placed.codeWords (labels : LabelTable) (q : Placed) : List (Nat × Word) :=
  match q.current, q.statement.kind with
  | .code, .instruction line => numbered q.address ((line.encode labels).toOption.getD [])
  | _, _ => []

/-- The words of the instructions of the code, in their order, with their addresses. -/
def codeWords (labels : LabelTable) (placed : List Placed) : List (Nat × Word) :=
  placed.flatMap (Placed.codeWords labels)

theorem bounds_of_mem_numbered : ∀ {words : List Word} {a : Nat}, ∀ x ∈ numbered a words,
    a ≤ x.1 ∧ x.1 < a + 4 * words.length
  | [], _, x, hx => by cases hx
  | w :: words, a, x, hx => by
    rw [List.length_cons]
    rcases List.mem_cons.1 hx with rfl | hx
    · dsimp only; omega
    · have := bounds_of_mem_numbered x hx
      omega

/-- Words in a row are walked through one after the other. -/
theorem isPath_numbered {next : Nat → Nat} : ∀ {words : List Word} {a : Nat},
    (∀ x ∈ numbered a words, next x.1 = x.1 + 4) →
    IsPath next a ((numbered a words).map Prod.fst) (a + 4 * words.length)
  | [], _, _ => rfl
  | w :: words, a, h => by
    refine ⟨rfl, ?_⟩
    rw [h _ (List.mem_cons_self ..), List.length_cons,
      show a + 4 * (words.length + 1) = a + 4 + 4 * words.length by omega]
    exact isPath_numbered fun x hx => h x (List.mem_cons_of_mem _ hx)

theorem wordAt?_of_mem_numbered {i : Image} : ∀ {words : List Word} {a : Nat} {front back : List UInt8},
    i.bytes = front ++ (words.flatMap Word.toBytes ++ back) → i.loadAddress.toNat + front.length = a →
    ∀ x ∈ numbered a words, i.wordAt? x.1 = some x.2
  | [], _, _, _, _, _, x, hx => by cases hx
  | w :: words, a, front, back, hb, ha, x, hx => by
    rw [List.flatMap_cons, List.append_assoc] at hb
    rcases List.mem_cons.1 hx with rfl | hx
    · exact Image.wordAt?_of_append hb ha
    · rw [← List.append_assoc] at hb
      refine wordAt?_of_mem_numbered hb ?_ x hx
      rw [List.length_append, length_toBytes]
      omega

/-- The bytes of a statement are what it contributes, and data stands in a data section. -/
structure Placed.Proper (labels : LabelTable) (q : Placed) : Prop where
  contribution_eq : q.statement.kind.contribution labels = some q.bytes
  current_eq : q.statement.kind.isData → q.current = .data

theorem codeWords_of_ne {labels : LabelTable} {q : Placed} (h : q.current ≠ .code) :
    q.codeWords labels = [] := by
  unfold Placed.codeWords
  split
  · contradiction
  · rfl

/-- A statement of the code consists of its words. -/
theorem Placed.Proper.words {labels : LabelTable} {q : Placed} (h : q.Proper labels) (hc : q.current = .code) :
    ∃ words, q.codeWords labels = numbered q.address words ∧ q.bytes = words.flatMap Word.toBytes := by
  obtain ⟨hb, hd⟩ := h
  unfold Placed.codeWords
  rw [hc]
  cases hk : q.statement.kind with
  | instruction line =>
    rw [hk] at hb
    obtain ⟨words, hw, hb⟩ := Option.map_eq_some_iff.1 hb
    exact ⟨words, by dsimp only; rw [hw]; rfl, hb.symm⟩
  | data name payload =>
    rw [hk, hc] at hd
    cases hd rfl
  | _ =>
    rw [hk] at hb
    exact ⟨[], rfl, (Option.some.inj hb).symm⟩

theorem Placed.Proper.four_dvd {labels : LabelTable} {q : Placed} (h : q.Proper labels) :
    4 ∣ q.bytes.length :=
  StatementKind.four_dvd_contribution h.contribution_eq

/-- A word of the code lies within the bytes of its statement. -/
theorem Placed.Proper.bounds {labels : LabelTable} {q : Placed} (h : q.Proper labels) {x : Nat × Word}
    (hx : x ∈ q.codeWords labels) :
    q.current = .code ∧ q.address ≤ x.1 ∧ x.1 < q.address + q.bytes.length := by
  by_cases hc : q.current = .code
  · obtain ⟨words, hw, hb⟩ := h.words hc
    rw [hw] at hx
    rw [hb, length_flatMap_toBytes]
    exact ⟨hc, bounds_of_mem_numbered x hx⟩
  · rw [codeWords_of_ne hc] at hx
    cases hx

/-! ## The path through the code -/

/-- The addresses on the path at a statement: its jump, and its words if it is of the code. -/
def Placed.trail (labels : LabelTable) (q : Placed) : List Nat :=
  (if q.jumped then [q.slot] else []) ++ (q.codeWords labels).map Prod.fst

/-- The addresses on the path before the end. -/
def trail (labels : LabelTable) (placed : List Placed) : List Nat := placed.flatMap (Placed.trail labels)

variable {labels : LabelTable} {stop : Nat}

theorem not_jumped_of_code {q : Placed} {pending : Bool} (hj : q.jumped = needsJump q.current pending)
    (hc : q.current = .code) : q.jumped = false := by
  rw [hj, hc]; rfl

/-- No word of the code stands in the place of a jump. -/
theorem not_mem_slots : ∀ {placed : List Placed} {address : Nat} {pending : Bool},
    InRow address pending stop placed → (∀ q ∈ placed, q.Proper labels) →
    ∀ x ∈ codeWords labels placed, x.1 ∉ slots placed
  | [], _, _, _, _, x, hx => by cases hx
  | q :: later, address, pending, ⟨hj, ha, hl⟩, hp, x, hx => by
    intro hs
    obtain ⟨r, hr, hrj, hs⟩ := mem_slots.1 hs
    rw [jumpSize_of_jumped hj] at ha
    have hq := hp q (List.mem_cons_self ..)
    have hp : ∀ r ∈ later, r.Proper labels := fun r hr => hp r (List.mem_cons_of_mem _ hr)
    rcases List.mem_append.1 hx with hx | hx <;> rcases List.mem_cons.1 hr with hr | hr
    -- a statement of the code has no jump
    · rw [hr, not_jumped_of_code hj (hq.bounds hx).1] at hrj
      cases hrj
    -- the word stands before the jump
    · have := (hl.bounds r hr).2.2 hrj
      have := (hq.bounds hx).2
      unfold Placed.slot at hs
      omega
    -- the jump stands before the word
    · obtain ⟨t, ht, hx⟩ := List.mem_flatMap.1 hx
      have := (hl.bounds t ht).1
      have := ((hp t ht).bounds hx).2
      rw [hr] at hrj hs
      rw [if_pos hrj] at ha
      unfold Placed.slot at hs
      omega
    · exact not_mem_slots hl hp x hx (mem_slots.2 ⟨r, hr, hrj, hs⟩)

/-- If each jump leads to the next statement of the code, and each word of the code to the next word,
the trail is a path. It starts where the code goes on, if the jump before the statements is still to
be taken. -/
theorem isPath_trail {next : Nat → Nat} : ∀ {placed : List Placed} {address : Nat} {pending : Bool},
    InRow address pending stop placed → (∀ q ∈ placed, q.Proper labels) →
    (∀ before q later, placed = before ++ q :: later → q.jumped → next q.slot = resumeAt stop later) →
    (∀ x ∈ codeWords labels placed, next x.1 = x.1 + 4) →
    IsPath next (if pending then resumeAt stop placed else address) (trail labels placed) stop
  | [], address, pending, h, _, _, _ => by
    cases h
    split <;> rfl
  | q :: later, address, pending, ⟨hj, ha, hl⟩, hp, hjump, hword => by
    have ih := isPath_trail hl (fun q hq => hp q (List.mem_cons_of_mem _ hq))
      (fun before q' later' h => hjump (q :: before) q' later' (by rw [h]; rfl))
      (fun x hx => hword x (List.mem_append_right _ hx))
    rw [resumeAt_cons]
    refine isPath_append ih ?_
    unfold Placed.trail
    by_cases hc : q.current = .code
    -- the words of a statement of the code are walked through, whether or not a jump led there
    · obtain ⟨words, hw, hb⟩ := (hp q (List.mem_cons_self ..)).words hc
      rw [hc, jumpSize_code] at ha
      rw [hc, if_pos rfl, not_jumped_of_code hj hc, hw, ha]
      have hpath : IsPath next q.address ((numbered q.address words).map Prod.fst)
          (q.address + 4 * words.length) :=
        isPath_numbered fun x hx => hword x (List.mem_append_left _ (by rw [hw]; exact hx))
      rw [hb, length_flatMap_toBytes]
      simpa [ha, leavesPending] using hpath
    -- any other statement is stepped over: by its own jump, or by one that led past it
    · have hl : leavesPending q.current = true := by simpa [leavesPending] using hc
      rw [if_neg hc, hl, codeWords_of_ne hc]
      cases pending with
      | true =>
        have : q.jumped = false := by rw [hj]; simp [needsJump]
        rw [this]
        rfl
      | false =>
        have hq : q.jumped = true := by rw [hj]; simpa [needsJump] using hc
        rw [jumpSize_of_jumped hj, if_pos hq] at ha
        rw [if_pos hq]
        have hs : q.slot = address := by rw [Placed.slot, ha]; omega
        exact ⟨hs, by rw [← hs]; exact hjump [] q later rfl hq⟩

/-- Off the jumps, the trail is the words of the code. -/
theorem filter_trail {placed : List Placed} {s : List Nat} (hs : ∀ a ∈ slots placed, a ∈ s)
    (hw : ∀ x ∈ codeWords labels placed, x.1 ∉ s) :
    (trail labels placed).filter (· ∉ s) = (codeWords labels placed).map Prod.fst := by
  rw [trail, codeWords, List.filter_flatMap, List.map_flatMap]
  refine List.flatMap_congr fun q hq => ?_
  have hwords : ((q.codeWords labels).map Prod.fst).filter (· ∉ s) = (q.codeWords labels).map Prod.fst := by
    refine List.filter_eq_self.2 fun a ha => ?_
    obtain ⟨x, hx, rfl⟩ := List.mem_map.1 ha
    exact decide_eq_true (hw x (List.mem_flatMap.2 ⟨q, hq, hx⟩))
  rw [Placed.trail, List.filter_append, hwords]
  split
  · rename_i hj
    have := hs q.slot (mem_slots.2 ⟨q, hq, hj, rfl⟩)
    simp [this]
  · rfl

theorem InRow.bounds_trail {placed : List Placed} {address : Nat} {pending : Bool}
    (h : InRow address pending stop placed) (hp : ∀ q ∈ placed, q.Proper labels) {a : Nat}
    (ha : a ∈ trail labels placed) : address ≤ a := by
  obtain ⟨q, hq, ha⟩ := List.mem_flatMap.1 ha
  obtain ⟨hlo, -, hj⟩ := h.bounds q hq
  rcases List.mem_append.1 ha with ha | ha
  · split at ha
    · rename_i hjumped
      have := hj hjumped
      rw [List.mem_singleton.1 ha, Placed.slot]
      omega
    · cases ha
  · obtain ⟨x, hx, rfl⟩ := List.mem_map.1 ha
    have := ((hp q hq).bounds hx).2.1
    omega

/-- The trail keeps out of every statement that is not of the code. -/
theorem trail_avoids : ∀ {placed : List Placed} {address : Nat} {pending : Bool},
    InRow address pending stop placed → (∀ q ∈ placed, q.Proper labels) → ∀ a ∈ trail labels placed,
    ∀ q ∈ placed, q.current ≠ .code → a < q.address ∨ q.address + q.bytes.length ≤ a
  | [], _, _, _, _, _, ha, _, _, _ => by cases ha
  | r :: later, address, pending, ⟨hj, ha, hl⟩, hp, a, hm, q, hq, hc => by
    rw [jumpSize_of_jumped hj] at ha
    have hr := hp r (List.mem_cons_self ..)
    have hp : ∀ q ∈ later, q.Proper labels := fun q hq => hp q (List.mem_cons_of_mem _ hq)
    rcases List.mem_append.1 hm with hm | hm
    -- the jump stands before its statement; a word of the code is in a statement of the code
    · rcases List.mem_append.1 hm with hm | hm
      · split at hm
        · rename_i hrj
          rw [if_pos hrj] at ha
          rw [List.mem_singleton.1 hm, Placed.slot]
          rcases List.mem_cons.1 hq with rfl | hq
          · omega
          · have := (hl.bounds q hq).1
            omega
        · cases hm
      · obtain ⟨x, hx, rfl⟩ := List.mem_map.1 hm
        obtain ⟨hrc, -, hhi⟩ := hr.bounds hx
        rcases List.mem_cons.1 hq with rfl | hq
        · exact absurd hrc hc
        · have := (hl.bounds q hq).1
          omega
    · rcases List.mem_cons.1 hq with hq | hq
      · rw [hq]
        exact .inr (hl.bounds_trail hp hm)
      · exact trail_avoids hl hp a hm q hq hc

theorem InRow.four_dvd : ∀ {placed : List Placed} {address : Nat} {pending : Bool},
    InRow address pending stop placed → (∀ q ∈ placed, 4 ∣ q.bytes.length) → 4 ∣ address →
    4 ∣ stop ∧ ∀ q ∈ placed, 4 ∣ q.address
  | [], _, _, h, _, hd => ⟨h ▸ hd, fun _ hq => nomatch hq⟩
  | q :: later, address, pending, ⟨hj, ha, hl⟩, hp, hd => by
    have hlen := hp q (List.mem_cons_self ..)
    have hqa : 4 ∣ q.address := by
      rw [jumpSize_of_jumped hj] at ha
      split at ha <;> omega
    obtain ⟨hs, hr⟩ := hl.four_dvd (fun q hq => hp q (List.mem_cons_of_mem _ hq)) (by omega)
    exact ⟨hs, List.forall_mem_cons.2 ⟨hqa, hr⟩⟩

theorem resumeAt_cases (stop : Nat) (later : List Placed) :
    resumeAt stop later = stop ∨ ∃ q ∈ later, resumeAt stop later = q.address := by
  unfold resumeAt
  cases hf : later.find? fun q => q.current = .code with
  | none => exact .inl rfl
  | some q => exact .inr ⟨q, List.mem_of_find?_eq_some hf, rfl⟩

/-! ## Programs -/

section

variable {i : Image} {placed : List Placed} (hb : i.bytes = programBytes stop placed)
  (hrow : InRow i.loadAddress.toNat false stop placed)

include hb hrow

/-- A jump holds the address where the code goes on. -/
theorem wordAt?_slot {before later : List Placed} {q : Placed} (h : placed = before ++ q :: later)
    (hq : q.jumped) : i.wordAt? q.slot = some (jumpTo (resumeAt stop later).toUInt32) := by
  subst h
  obtain ⟨front, after, hbytes, ha⟩ := hrow.exists_jump (fun later => jumpTo (resumeAt stop later).toUInt32) hq
  exact Image.wordAt?_of_append (hb.trans hbytes) ha

theorem wordAt?_codeWords (hp : ∀ q ∈ placed, q.Proper labels) {x : Nat × Word}
    (hx : x ∈ codeWords labels placed) : i.wordAt? x.1 = some x.2 := by
  obtain ⟨q, hq, hxq⟩ := List.mem_flatMap.1 hx
  have hc := ((hp q hq).bounds hxq).1
  obtain ⟨words, hw, hqb⟩ := (hp q hq).words hc
  obtain ⟨before, later, rfl⟩ := List.append_of_mem hq
  obtain ⟨front, _, pending, ⟨hj, ha, -⟩, hbytes, rfl⟩ :=
    hrow.split fun later => jumpTo (resumeAt stop later).toUInt32
  rw [hc, jumpSize_code] at ha
  rw [bytesWith, not_jumped_of_code hj hc, hqb, if_neg Bool.false_ne_true, List.nil_append] at hbytes
  rw [hw] at hxq
  exact wordAt?_of_mem_numbered (hb.trans hbytes) ha.symm x hxq

/-- The word at the end is the last of the bytes. -/
theorem exists_stop : ∃ front, i.bytes = front ++ ((0 : Word).toBytes ++ []) ∧
    i.loadAddress.toNat + front.length = stop := by
  rw [← List.append_nil placed] at hb hrow
  obtain ⟨front, _, _, hstop, hbytes, ha⟩ := hrow.split fun later => jumpTo (resumeAt stop later).toUInt32
  exact ⟨front, hb.trans hbytes, ha.trans hstop⟩

/-- The path through a program of whole words below `2 ^ 24` is the trail. -/
theorem isPath_program (hp : ∀ q ∈ placed, q.Proper labels) (hd : 4 ∣ i.loadAddress.toNat)
    (hlt : i.loadAddress.toNat + i.bytes.length ≤ 2 ^ 24) :
    IsPath (nextAddress i (slots placed)) i.loadAddress.toNat (trail labels placed) stop := by
  obtain ⟨front, hbytes, hstop⟩ := exists_stop hb hrow
  rw [hbytes, List.length_append] at hlt
  change _ + (_ + 4) ≤ _ at hlt
  refine isPath_trail hrow hp (fun before q later h hq => ?_) fun x hx => ?_
  · have hm : ∀ r ∈ q :: later, r ∈ placed := fun r hr => by rw [h]; exact List.mem_append_right _ hr
    rw [nextAddress, if_pos (mem_slots.2 ⟨q, hm q (List.mem_cons_self ..), hq, rfl⟩),
      wordAt?_slot hb hrow h hq, Option.elim_some]
    -- the target is the end or a statement, hence a whole word below `2 ^ 24`
    obtain ⟨hds, hdq⟩ := hrow.four_dvd (fun q hq => (hp q hq).four_dvd) hd
    rcases resumeAt_cases stop later with hr | ⟨r, hrm, hr⟩
    · rw [hr, addressField_jumpTo hds (by omega)]
    · have hrm := hm r (List.mem_cons_of_mem _ hrm)
      have := (hrow.bounds r hrm).2.1
      rw [hr, addressField_jumpTo (hdq r hrm) (by omega)]
  · rw [nextAddress, if_neg (not_mem_slots hrow hp x hx)]

/-- Off the jumps, the path visits the words of the code and the zero word at the end. -/
theorem words_on_trail (hp : ∀ q ∈ placed, q.Proper labels) :
    ((trail labels placed ++ [stop]).filter (· ∉ slots placed)).map (fun a => (a, i.wordAt? a)) =
      (codeWords labels placed).map (fun x => (x.1, some x.2)) ++ [(stop, some 0)] := by
  obtain ⟨front, hbytes, hstop⟩ := exists_stop hb hrow
  have hout : stop ∉ slots placed := fun hs => by
    obtain ⟨q, hq, hj, hs⟩ := mem_slots.1 hs
    obtain ⟨-, hhi, hlo⟩ := hrow.bounds q hq
    have := hlo hj
    unfold Placed.slot at hs
    omega
  have hlast : [stop].filter (· ∉ slots placed) = [stop] := List.filter_eq_self.2 fun a ha => by
    rw [List.mem_singleton.1 ha]
    exact decide_eq_true hout
  rw [List.filter_append, filter_trail (fun _ ha => ha) (not_mem_slots hrow hp), hlast, List.map_append,
    List.map_map, List.map_singleton, Image.wordAt?_of_append hbytes hstop]
  congr 1
  exact List.map_congr_left fun x hx => by rw [Function.comp_apply, wordAt?_codeWords hb hrow hp hx]

end

/-- Every jump over data or subroutines leads to the next statement of the code or to the end, and
filling the jumps in changes no other byte. So in a program of whole words below `2 ^ 24`, the path that
follows the jumps visits the words of the instructions of the code, in their order, and the zero word at
the end, and keeps out of data and subroutines. -/
theorem assemble_jumps_through_code {origin : Address} {source : String} {p : Program}
    (h : assemble origin source = .ok p) :
    ∃ statements placed stop, ReadsAs source statements ∧ IsPlacement origin statements p placed stop ∧
      (∀ before q later, placed = before ++ q :: later → q.jumped → p.image.wordAt? q.slot =
        some ((0x10000000 : Word) ||| ((resumeAt stop later).toUInt32 >>> 2 &&& 0x3FFFFF))) ∧
      (∀ i, (∀ a ∈ slots placed, p.image.loadAddress.toNat + i < a ∨ a + 4 ≤ p.image.loadAddress.toNat + i) →
        p.image.bytes[i]? = (bytesWith (fun _ => openJump) placed)[i]?) ∧
      (4 ∣ p.image.loadAddress.toNat → p.image.loadAddress.toNat + p.image.bytes.length ≤ 2 ^ 24 →
        ∃ path, IsPath (nextAddress p.image (slots placed)) p.image.loadAddress.toNat path stop ∧
          ((path ++ [stop]).filter (· ∉ slots placed)).map (fun a => (a, p.image.wordAt? a)) =
            (codeWords p.labels placed).map (fun x => (x.1, some x.2)) ++ [(stop, some 0)] ∧
          ∀ a ∈ path ++ [stop], ∀ q ∈ placed, q.statement.kind.isData ∨ q.current ≠ .code →
            a < q.address ∨ q.address + q.bytes.length ≤ a) := by
  obtain ⟨statements, placed, stop, hr, hi⟩ := placement_of_assemble h
  have hrow := hi.inRow
  have hb : p.image.bytes = programBytes stop placed := by rw [hi.image_eq]
  have hp : ∀ q ∈ placed, q.Proper p.labels := fun q hq =>
    ⟨(mem_of_placement hi.placement_eq q hq).2,
      current_of_placement hi.placement_eq hr.dataInSections q hq⟩
  refine ⟨statements, placed, stop, hr, hi, fun before q later hq hj => wordAt?_slot hb hrow hq hj,
    fun i hi => ?_, fun hd hlt => ⟨trail p.labels placed, isPath_program hb hrow hp hd hlt,
      words_on_trail hb hrow hp, fun a ha q hq hk => ?_⟩⟩
  · rw [hb]
    exact hrow.getElem?_bytesWith _ _ i hi
  · have hc : q.current ≠ .code := by
      rcases hk with hk | hk
      · rw [(hp q hq).current_eq hk]; exact Section.noConfusion
      · exact hk
    rcases List.mem_append.1 ha with ha | ha
    · exact trail_avoids hrow hp a ha q hq hc
    · rw [List.mem_singleton.1 ha]
      exact .inr (hrow.bounds q hq).2.1

/-- Two jumps: over a number and a subroutine to the code, and over another number to the end. -/
theorem assemble_jumps_through_code_twice :
    let source := ".DATA; INT n 7; .FUNC; :f; INC r2; .CODE; INC r1; .DATA; INT m 9;"
    let p : Program := ⟨⟨16, 0, [7, 0, 0, 16, 7, 0, 0, 0, 34, 0, 64, 0, 34, 0, 0, 0, 10, 0, 0, 16, 9, 0, 0, 0,
        0, 0, 0, 0]⟩, [(⟨"f"⟩, 24), (⟨"m"⟩, 36), (⟨"n"⟩, 20)],
      [.skip 16 28, .data 1 20 ⟨"n"⟩ [7, 0, 0, 0], .label 1 24 ⟨"f"⟩, .instruction 1 24 [4194338],
        .instruction 1 28 [34], .skip 32 40, .data 1 36 ⟨"m"⟩ [9, 0, 0, 0], .halt 40]⟩
    assemble 16 source = .ok p ∧ 4 ∣ p.image.loadAddress.toNat ∧
      p.image.loadAddress.toNat + p.image.bytes.length ≤ 2 ^ 24 ∧
      ∃ statements placed stop path, IsPlacement 16 statements p placed stop ∧
        IsPath (nextAddress p.image (slots placed)) 16 path stop ∧
        ((path ++ [stop]).filter (· ∉ slots placed)).map (fun a => (a, p.image.wordAt? a)) =
          (codeWords p.labels placed).map (fun x => (x.1, some x.2)) ++ [(stop, some 0)] := by
  intro source p
  have h : assemble 16 source = .ok p := by decide +kernel
  have hd : 4 ∣ p.image.loadAddress.toNat := by decide +kernel
  have hlt : p.image.loadAddress.toNat + p.image.bytes.length ≤ 2 ^ 24 := by decide +kernel
  obtain ⟨statements, placed, stop, -, hi, -, -, hpath⟩ := assemble_jumps_through_code h
  obtain ⟨path, hpath, hwords, -⟩ := hpath hd hlt
  exact ⟨h, hd, hlt, statements, placed, stop, path, hi, hpath, hwords⟩

end WordMachine.Assembly
