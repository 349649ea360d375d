/-
# Calls inside of calls

A release that destroys its object drops the payload, and the destructor makes further calls
before the release returns, on any objects, those being destroyed among them.  So calls are
nested, and nothing in the code says how deep.  `Heap.Carries` is this nesting: the calls that
are carried out, those of a destructor after the one that dropped its payload, each with what
it answers and with the heap before it and after it.

The recursion ends since a destructor that has started is no longer in the heap: there are as
many calls as were made from outside and as the destructors of the dropped payloads make
(`Carries.length_add_dormant`).  It does what running a queue does, only in other words
(`Carries.eq_settle`), so each payload is dropped once (`carries_once`).
-/

import EngineHandles.Proofs.Heap.Drops

namespace EngineHandles

/-- The tally from which an operation takes a referrer, if it does. -/
def TallyOp.takes? : TallyOp → Option (ObjectId × RefKind)
  | .retain _ _ => none
  | .release o k => some (o, k)
  | .weaken o => some (o, .strong)
  | .strengthen o => some (o, .weak)

namespace Heap

/-- Whether an operation tells that it dropped the payload of its object. -/
def answer (h : Heap) : TallyOp → Bool
  | .release o k => (h.release o k).1
  | .retain _ _ | .weaken _ | .strengthen _ => false

/-- A call that was carried out, with all that it set off. -/
structure Carried where
  op : TallyOp
  before : Heap
  answer : Bool
  after : Heap

/-- The payload that a call itself drops, if its answer is right. -/
def Carried.dropped (c : Carried) : List ObjectId :=
  match c.op with
  | .release o _ => if c.answer = true then [o] else []
  | .retain _ _ | .weaken _ | .strengthen _ => []

/-- **How calls are carried out:** one after another, and the calls of a destructor before the
call returns that dropped its payload. -/
inductive Carries : Heap → List TallyOp → List Carried → Heap → Prop
  | nil (h : Heap) : Carries h [] [] h
  | cons {h h' h'' : Heap} {op : TallyOp} {rest : List TallyOp} {inner later : List Carried} :
    Carries (h.step op).2 (h.step op).1 inner h' → Carries h' rest later h'' →
      Carries h (op :: rest) (⟨op, h, h.answer op, h'⟩ :: (inner ++ later)) h''

variable {h h' : Heap} {op : TallyOp} {ops xs ys : List TallyOp} {calls : List Carried}
  {o : ObjectId} {k : RefKind}

namespace Carries

/-- Calls are carried out in one way only. -/
theorem unique {calls' : List Carried} {h'' : Heap} (hc : h.Carries ops calls h')
    (hc' : h.Carries ops calls' h'') : calls' = calls ∧ h'' = h' := by
  induction hc generalizing calls' h'' with
  | nil h =>
    cases hc'
    exact ⟨rfl, rfl⟩
  | cons _ _ ihinner ihlater =>
    cases hc' with
    | cons hinner hlater =>
      obtain ⟨rfl, rfl⟩ := ihinner hinner
      obtain ⟨rfl, rfl⟩ := ihlater hlater
      exact ⟨rfl, rfl⟩

/-- Some calls, and then others. -/
theorem of_append (hc : h.Carries (xs ++ ys) calls h') :
    ∃ first later m, calls = first ++ later ∧ h.Carries xs first m ∧ m.Carries ys later h' := by
  induction xs generalizing h calls with
  | nil => exact ⟨[], calls, h, rfl, .nil h, hc⟩
  | cons op xs ih =>
    cases hc with
    | cons hinner hrest =>
      obtain ⟨first, later, m, rfl, hfirst, hlater⟩ := ih hrest
      exact ⟨_, later, m, by rw [List.cons_append, List.append_assoc], .cons hinner hfirst, hlater⟩

/-- The calls carried out are those of the queue and of the destructors that are gone. -/
theorem length_add_dormant (hc : h.Carries ops calls h') :
    calls.length + h'.dormant = ops.length + h.dormant := by
  induction hc with
  | nil h => rfl
  | @cons h h' h'' op rest inner later _ _ ihinner ihlater =>
    have hstep := length_add_dormant_step op rest h
    rw [List.length_append] at hstep
    rw [List.length_cons, List.length_append, List.length_cons]
    omega

/-- Calls come to what the queue of them comes to. -/
theorem eq_settle (hc : h.Carries ops calls h') : h' = h.settle ops := by
  induction hc with
  | nil h => rfl
  | @cons h h' h'' op rest inner later _ _ ihinner ihlater =>
    rw [settle_cons, settle_append, ← ihinner, ihlater]

end Carries

/-- **Calls come to an end,** whatever objects they and the destructors name. -/
theorem exists_carries (ops : List TallyOp) (h : Heap) :
    ∃ calls, h.Carries ops calls (h.settle ops) := by
  induction ops, h using settle_induction with
  | nil h => exact ⟨[], .nil h⟩
  | cons op rest h ih =>
    obtain ⟨calls, hc⟩ := ih
    obtain ⟨inner, later, m, -, hinner, hlater⟩ := hc.of_append
    rw [settle_cons]
    exact ⟨_, .cons hinner hlater⟩

/-! ### One call -/

/-- A tally that stays as it is. -/
theorem adjust_eq_self {f : Tally → Tally} (hf : f (h.cell o).tally = (h.cell o).tally) :
    h.adjust o f = h := by
  by_cases ho : h.contains o = true
  · rw [contains_iff] at ho
    rw [cell, Array.getElem?_eq_getElem ho, Option.getD_some] at hf
    rw [adjust]
    congr 1
    refine Array.ext_getElem? fun i => ?_
    rw [Array.getElem?_modify]
    split
    · next hi =>
      subst hi
      rw [Array.getElem?_eq_getElem ho, Option.map_some, hf]
    · rfl
  · exact adjust_of_not_contains ho f

/-- **Nothing is taken from a tally that is zero,** and then nothing is set off. -/
theorem step_of_count_eq_zero (hop : op.takes? = some (o, k)) (hk : (h.cell o).tally.count k = 0) :
    h.step op = ([], h) := by
  have hnone : (h.cell o).tally.takeOne? k = none := by
    cases k <;> exact if_pos hk
  cases op with
  | retain => cases hop
  | release =>
    cases hop
    rw [step, letGo, hnone]
  | weaken =>
    cases hop
    rw [step, weaken, adjust_eq_self (by rw [Tally.weaken, Tally.move, hnone])]
  | strengthen =>
    cases hop
    rw [step, strengthen, adjust_eq_self (by rw [Tally.strengthen, Tally.move, hnone])]

/-- A payload that was dropped stays dropped. -/
theorem payload_settle_eq_none (ops : List TallyOp) (hp : (h.cell o).payload = none) :
    ((h.settle ops).cell o).payload = none := by
  obtain ⟨ds, hd⟩ := exists_drops ops h
  rw [hd.payload, hp, ite_self]

/-- **A release answers** whether its object had a payload before and has none after it. -/
theorem release_fst_iff (h : Heap) (o : ObjectId) (k : RefKind) :
    (h.release o k).1 = true
      ↔ (h.cell o).isDestroyed = false ∧ ((h.release o k).2.cell o).isDestroyed = true := by
  rw [release]
  dsimp only
  rcases h.letGo_cases o k with ⟨-, he⟩ | ⟨rest, -, ⟨-, he⟩ | ⟨-, halive, he⟩⟩
  · rw [he]
    refine iff_of_false Bool.false_ne_true ?_
    rintro ⟨halive, hgone⟩
    exact Bool.false_ne_true (halive.symm.trans hgone)
  · rw [he]
    refine iff_of_false Bool.false_ne_true ?_
    rintro ⟨halive, hgone⟩
    rw [settle_nil, Cell.isDestroyed, payload_adjust] at hgone
    exact Bool.false_ne_true (halive.symm.trans hgone)
  · rw [he]
    refine iff_of_true rfl ⟨halive, Option.isNone_iff_eq_none.2 (payload_settle_eq_none _ ?_)⟩
    have ho : (h.adjust o fun _ => rest).contains o = true := by
      rw [contains_adjust]
      exact contains_of_alive halive
    rw [cell_destroy ho, if_pos rfl]

/-- What one call, with all that it sets off, does to payloads and tallies. -/
structure Carried.Sound (c : Carried) : Prop where
  /-- It answers whether it dropped the payload of its object. -/
  told : c.answer = true ↔ ∃ o k, c.op = .release o k ∧ (c.before.cell o).isDestroyed = false ∧
    (c.after.cell o).isDestroyed = true
  /-- If it did, this came first. -/
  journal : c.answer = true → ∃ o k later, c.op = .release o k ∧
    c.after.journal.toList = c.before.journal.toList ++ .payloadDropped o :: later
  /-- If it did not, no payload at all was dropped. -/
  quiet : c.answer = false → c.after.journal = c.before.journal ∧
    ∀ x, (c.after.cell x).payload = (c.before.cell x).payload
  lasting : ∀ x, (c.before.cell x).payload = none → (c.after.cell x).payload = none
  /-- From a tally that is zero it takes nothing. -/
  floor : ∀ o k, c.op.takes? = some (o, k) → (c.before.cell o).tally.count k = 0 →
    c.after = c.before

/-- A call that is no release drops nothing. -/
theorem sound_of_adjust {f : Tally → Tally} (hop : ∀ o k, op ≠ .release o k)
    (hstep : h.step op = ([], h.adjust o f)) : Carried.Sound ⟨op, h, false, h.adjust o f⟩ where
  told := by
    refine iff_of_false Bool.false_ne_true ?_
    rintro ⟨o, k, he, -⟩
    exact hop o k he
  journal := nofun
  quiet _ := ⟨rfl, h.payload_adjust o f⟩
  lasting x hx := (h.payload_adjust o f x).trans hx
  floor _ _ htakes hk := congrArg Prod.snd (hstep.symm.trans (step_of_count_eq_zero htakes hk))

theorem sound_release (h : Heap) (o : ObjectId) (k : RefKind) :
    Carried.Sound ⟨.release o k, h, (h.release o k).1, (h.release o k).2⟩ where
  told := by
    rw [release_fst_iff]
    constructor
    · exact fun hd => ⟨o, k, rfl, hd⟩
    · rintro ⟨_, _, he, hd⟩
      cases he
      exact hd
  journal ht := by
    have hj := h.journal_release o k
    rw [if_pos ht] at hj
    obtain ⟨later, hlater⟩ := hj
    exact ⟨o, k, later, rfl, hlater⟩
  quiet hf := by
    have hj := h.journal_release o k
    rw [if_neg (Bool.eq_false_iff.1 hf)] at hj
    obtain ⟨ds, hd⟩ := exists_drops [.release o k] h
    have hnone : ds = [] := by
      have := hd.journal
      rw [settle_release, hj, List.self_eq_append_right, List.map_eq_nil_iff] at this
      exact this
    refine ⟨hj, fun x => ?_⟩
    rw [← settle_release, hd.payload, hnone, if_neg List.not_mem_nil]
  lasting x hx := by
    rw [← settle_release]
    exact payload_settle_eq_none _ hx
  floor _ _ htakes hk := by
    show (h.release o k).2 = h
    rw [← settle_release, settle_cons, step_of_count_eq_zero htakes hk]
    rfl

/-- **One call** answers rightly and takes nothing from a tally that is zero. -/
theorem sound_call (h : Heap) (op : TallyOp) :
    Carried.Sound ⟨op, h, h.answer op, h.settle [op]⟩ := by
  cases op with
  | retain o k =>
    rw [settle_retain]
    exact sound_of_adjust nofun rfl
  | release o k =>
    rw [settle_release]
    exact h.sound_release o k
  | weaken o =>
    rw [settle_weaken]
    exact sound_of_adjust nofun rfl
  | strengthen o =>
    rw [settle_strengthen]
    exact sound_of_adjust nofun rfl

/-! ### All calls -/

namespace Carries

theorem sound (hc : h.Carries ops calls h') : ∀ c ∈ calls, c.Sound := by
  induction hc with
  | nil h => nofun
  | @cons h h' h'' op rest inner later hinner _ ihinner ihlater =>
    have hone : h' = h.settle [op] := by
      rw [settle_cons, List.append_nil]
      exact hinner.eq_settle
    refine List.forall_mem_cons.2 ⟨hone ▸ h.sound_call op, fun c hc => ?_⟩
    exact (List.mem_append.1 hc).elim (ihinner c) (ihlater c)

/-- Every payload that is dropped is told by the call that dropped it. -/
theorem journal_eq (hc : h.Carries ops calls h') :
    h'.journal.toList
      = h.journal.toList ++ (calls.flatMap Carried.dropped).map .payloadDropped := by
  induction hc with
  | nil h => exact (List.append_nil _).symm
  | @cons h h' h'' op rest inner later _ _ ihinner ihlater =>
    have hnow : (h.step op).2.journal.toList = h.journal.toList
        ++ (Carried.dropped ⟨op, h, h.answer op, h'⟩).map .payloadDropped := by
      cases op with
      | release o k =>
        refine (h.journal_letGo o k).trans (congrArg _ ?_)
        show _ = (if (h.letGo o k).1 = true then [o] else []).map _
        split <;> rfl
      | retain o k => exact (List.append_nil _).symm
      | weaken o => exact (List.append_nil _).symm
      | strengthen o => exact (List.append_nil _).symm
    rw [ihlater, ihinner, hnow, List.flatMap_cons, List.flatMap_append, List.map_append,
      List.map_append, List.append_assoc, List.append_assoc]

end Carries

/-- **Calls come to an end and drop each payload once,** whatever tallies the objects have as
they begin and whatever the destructors call: objects shared by several payloads, cycles, an
object that releases itself, the same object many times, objects that are destroyed already.
There is one way to carry the calls out, with those of the destructors no more than the calls
made and those that wait in destructors.  The payloads dropped are those of different objects,
in the order of the journal, each by the one call that answers so; they are those of the
objects that were alive before and are destroyed after.  And each single call, however deep,
answers whether it dropped the payload of its object, leaves dropped payloads dropped, and takes
nothing from a tally that is zero. -/
theorem carries_once (h : Heap) (ops : List TallyOp) :
    ∃ calls, h.Carries ops calls (h.settle ops) ∧
      (∀ calls' h', h.Carries ops calls' h' → calls' = calls ∧ h' = h.settle ops) ∧
      calls.length ≤ ops.length + h.dormant ∧
      (calls.flatMap Carried.dropped).Nodup ∧
      (h.settle ops).journal.toList
        = h.journal.toList ++ (calls.flatMap Carried.dropped).map .payloadDropped ∧
      (∀ o, o ∈ calls.flatMap Carried.dropped
        ↔ (h.cell o).isDestroyed = false ∧ ((h.settle ops).cell o).isDestroyed = true) ∧
      (∀ o, (h.cell o).payload = none → ((h.settle ops).cell o).payload = none) ∧
      ∀ c ∈ calls, c.Sound := by
  obtain ⟨calls, hc⟩ := exists_carries ops h
  obtain ⟨ds, hd⟩ := exists_drops ops h
  have hlength := hc.length_add_dormant
  -- the journal tells the same payloads in two ways
  have hds : calls.flatMap Carried.dropped = ds := by
    have hsame := List.append_cancel_left (hc.journal_eq.symm.trans hd.journal)
    exact List.map_injective_iff.2 (fun _ _ => Moment.payloadDropped.inj) hsame
  refine ⟨calls, hc, fun calls' h' => hc.unique, by omega, ?_, hc.journal_eq, fun o => ?_,
    fun o => payload_settle_eq_none ops, hc.sound⟩
  · rw [hds]
    exact hd.distinct
  · rw [hds, hd.isDestroyed_iff]
    constructor
    · exact fun ho => ⟨hd.alive o ho, .inr ho⟩
    · rintro ⟨halive, hgone⟩
      exact hgone.resolve_left (Bool.eq_false_iff.1 halive)

/-- An object whose destructor releases it, retains it and releases it again. -/
example :
    let again : List TallyOp := [.release ⟨0⟩ .strong, .retain ⟨0⟩ .strong, .release ⟨0⟩ .strong]
    let h : Heap := ⟨#[⟨⟨1, 0⟩, some ⟨.unit, again⟩⟩], #[]⟩
    h.release ⟨0⟩ .strong = (true, ⟨#[⟨⟨0, 0⟩, none⟩], #[.payloadDropped ⟨0⟩]⟩) := by decide

end Heap
end EngineHandles
