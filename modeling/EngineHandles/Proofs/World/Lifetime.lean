/-
# The lives of objects

In every run in which the host plays fair and refers to no destroyed object anew, whatever
a handle denotes is not destroyed, and neither is what a weak callback is asked about as the
callback starts.  Conversely an object that was referred to and has no reference left is
destroyed, and its payload was dropped once (`World.run_lifetimes`).

Both directions are read off the books.  A slot that holds an object has its reference in
them, so the object is alive; and the books say of each object that was ever referred to
that it is destroyed once nobody holds it.
-/

import EngineHandles.Proofs.World.Accounting

namespace EngineHandles

/-! ### Remembering what was referred to -/

namespace Sweep

variable {strict : Prop} {F : Account} {w : Sweep} {L L' : Ledger} {o x : ObjectId}

theorem AskCovered.met {addr : SlotAddr} (hc : w.AskCovered strict F o addr L L') (hx : L.met x) :
    L'.met x := by
  unfold AskCovered at hc
  split at hc
  · rw [hc]
    exact hx
  · exact Ledger.CoversAll.met hc hx

theorem AskAllCovered.met {addrs : List SlotAddr} (hc : w.AskAllCovered strict F o addrs L L')
    (hx : L.met x) : L'.met x := by
  induction addrs generalizing w L with
  | nil =>
    obtain rfl : L' = L := hc
    exact hx
  | cons addr rest ih =>
    obtain ⟨L₁, hfirst, hrest⟩ := hc
    exact ih hrest (hfirst.met hx)

theorem AllCovered.met {ds : List Doomed} (hc : w.AllCovered strict F ds L L') (hx : L.met x) :
    L'.met x := by
  induction ds generalizing w L with
  | nil =>
    obtain rfl : L' = L := hc
    exact hx
  | cons d rest ih =>
    obtain ⟨L₁, hfirst, hrest⟩ := hc
    exact ih hrest (hfirst.met hx)

end Sweep

/-- A stack that a storage keeps contributes what it holds. -/
theorem Storage.total_holds_pos_of_stack {s : Storage} {t : ThreadKey} {stack : ScopeStack}
    {o : ObjectId} (ht : s.stack? t = some stack) (ho : 0 < stack.holds.total o) :
    0 < s.holds.total o := by
  have hle := Account.total_le_sum (Storage.mem_of_stack? ht) (fun e => e.2.holds) o
  rw [holds, Account.total_add, localHolds]
  dsimp only at hle
  omega

namespace World

variable {strict : Prop} {w : World} {L L' : Ledger} {o : ObjectId}

theorem Allows.met {a : Act} (ha : Allows strict w L a L') (ho : L.met o) : L'.met o := by
  cases a with
  | tally op => exact Ledger.Covers.met ha ho
  | make p =>
    obtain ⟨-, hmet, -⟩ := ha
    rw [hmet]
    exact ho
  | furnish x ops =>
    obtain ⟨-, -, hmet, -⟩ := ha
    rw [hmet]
    exact ho
  | request t i r =>
    cases r with
    | collectWeak =>
      rw [Allows] at ha
      split at ha
      · rw [ha]
        exact ho
      · exact Sweep.AllCovered.met ha ho
    | _ =>
      obtain ⟨-, rfl⟩ := ha
      exact ho
  | _ =>
    obtain rfl : L' = L := ha
    exact ho

/-- What was referred to is not forgotten. -/
theorem Fair.met {acts : List Act} (hf : Fair strict w L acts L') (ho : L.met o) : L'.met o := by
  induction hf with
  | nil => exact ho
  | cons allowed _ _ ih => exact ih (.inl (allowed.met ho))

/-- An object that had a reference at some time of a fair run is remembered. -/
theorem Fair.met_of_tally {before after : List Act} (hb : Books strict L w) (hw : w.WellFormed)
    (hf : Fair strict w L (before ++ after) L')
    (hstart : (w.heap.cell o).tally.isZero = false → L.met o)
    (ho : ((w.run before).heap.cell o).tally.isZero = false) : L'.met o := by
  induction before generalizing w L with
  | nil => exact hf.met (hstart ho)
  | cons a rest ih =>
    cases hf with
    | @cons _ _ L₁ _ _ _ allowed fits others =>
      have hb' : Books strict L₁ (w.act a) := hb.act hw allowed fits
      refine ih hb'.remember (hw.act a) others (fun hz => .inr ?_) ho
      by_contra hno
      rw [(hb'.books.isZero_iff o).2 (Nat.eq_zero_of_not_pos hno)] at hz
      cases hz

/-- What the slots of an isolate hold is referred to. -/
theorem total_references_pos {iso : Isolate} (hi : iso ∈ w.isolates) (L : Ledger)
    (ho : 0 < iso.storage.holds.total o) : 0 < (w.references L).total o := by
  have hle := Account.total_le_sum hi (fun iso => iso.storage.holds) o
  rw [references, Account.total_add, Account.total_add, slotHolds]
  omega

/-- **What handles denote:** whatever a handle of any isolate denotes is referred to. -/
theorem Books.denoted (hb : Books strict L w) {iso : Isolate} (hi : iso ∈ w.isolates) :
    (∀ t l o, (iso.getLocal t l w.shared).1 = .ok o → 0 < (w.references L).total o) ∧
      (∀ p o, iso.getPersistent p = some o → 0 < (w.references L).total o) ∧
      ∀ r ∈ iso.roots, 0 < (w.references L).total r.2.2 := by
  have hs := hb.storages iso hi
  refine ⟨?_, ?_, ?_⟩
  · intro t l o hget
    obtain ⟨-, -, stack, ht, hget⟩ := Isolate.getLocal_eq_ok_iff.1 hget
    obtain ⟨-, x, hx, hxo⟩ := ScopeStack.get_eq_ok_iff.1 hget
    obtain ⟨c, xs, ps, hf⟩ := hs.framed _ (Storage.mem_of_stack? ht)
    have hpos := hf.stores.total_holds_pos hx hxo
    exact total_references_pos hi L (Storage.total_holds_pos_of_stack ht hpos)
  · intro p o hget
    unfold Isolate.getPersistent at hget
    split at hget
    · obtain ⟨x, hx, hxo⟩ := Option.bind_eq_some_iff.1 hget
      have hpos := hs.stored.total_holds_pos hx hxo
      refine total_references_pos hi L ?_
      rw [Storage.holds, Account.total_add]
      omega
    · cases hget
  · intro r hr
    exact total_references_pos hi L (Isolate.total_holds_pos_of_mem_roots hs hr)

/-- **The lives of objects.**  In every state that a run reaches in which the host plays
fair and refers to no destroyed object anew:
what a local or a persistent handle denotes, and what a walk over the roots meets, is not
destroyed; no object that a weak callback was ever asked about was destroyed as the callback
started; an object that had a reference after some part of the run is remembered as one
that was referred to, and if such an object has none left, it is destroyed and its payload
was dropped once; and no other payload was dropped.  Whoever releases a reference, and in
whatever heap, drops the payload if it is still there, at once and before all that this sets
off, just if it was the last reference. -/
theorem run_lifetimes (acts : List Act) (L : Ledger) (hf : Fair True {} {} acts L) :
    let w := ({} : World).run acts
    (∀ iso ∈ w.isolates,
      (∀ t l o, (iso.getLocal t l w.shared).1 = .ok o → (w.heap.cell o).isDestroyed = false) ∧
      (∀ p o, iso.getPersistent p = some o → (w.heap.cell o).isDestroyed = false) ∧
      ∀ r ∈ iso.roots, (w.heap.cell r.2.2).isDestroyed = false) ∧
    (∀ c, Moment.weakCalled c ∈ w.heap.journal.toList → c.destroyed = false) ∧
    (∀ o before after, acts = before ++ after →
      ((({} : World).run before).heap.cell o).tally.isZero = false → L.met o) ∧
    (∀ o, L.met o → (w.heap.cell o).tally.isZero = true →
      w.heap.contains o = true ∧ (w.heap.cell o).isDestroyed = true ∧
        w.heap.journal.toList.count (.payloadDropped o) = 1) ∧
    (∀ o, (w.heap.cell o).tally.isZero = false →
      (w.heap.cell o).isDestroyed = false ∧
        w.heap.journal.toList.count (.payloadDropped o) = 0) ∧
    ∀ (h : Heap) o k, (h.cell o).isDestroyed = false → 0 < ((h.cell o).tally.count k).toNat →
      if (h.cell o).tally.strong.toNat + (h.cell o).tally.weak.toNat = 1 then
        ∃ later, (h.release o k).2.journal.toList
          = h.journal.toList ++ .payloadDropped o :: later
      else (h.release o k).2.journal = h.journal := by
  intro w
  have hb : Books True L w := (books_init True).run wellFormed_init hf
  have halive : ∀ o, 0 < (w.references L).total o → (w.heap.cell o).isDestroyed = false :=
    hb.books.alive trivial
  refine ⟨?_, hb.books.asked trivial, ?_, ?_, ?_, ?_⟩
  · intro iso hi
    obtain ⟨hlocal, hpers, hroots⟩ := hb.denoted hi
    exact ⟨fun t l o h => halive o (hlocal t l o h), fun p o h => halive o (hpers p o h),
      fun r hr => halive r.2.2 (hroots r hr)⟩
  · rintro o before after rfl ho
    exact hf.met_of_tally (books_init True) wellFormed_init (fun hz => nomatch hz) ho
  · intro o hmet hz
    have hd := hb.books.ended o hmet ((hb.books.isZero_iff o).1 hz)
    have hmade := hb.books.made o hmet
    refine ⟨hmade, hd, ?_⟩
    rw [hb.books.dropped, if_pos ⟨hmade, hd⟩]
  · intro o hz
    have hd : (w.heap.cell o).isDestroyed = false := by
      refine halive o (Nat.pos_of_ne_zero fun h0 => ?_)
      rw [(hb.books.isZero_iff o).2 h0] at hz
      cases hz
    refine ⟨hd, ?_⟩
    rw [hb.books.dropped, hd, if_neg fun h => Bool.false_ne_true h.2]
  · intro h o k hd ho
    have hjournal := h.journal_release o k
    rw [if_congr (h.release_fst hd ho) rfl rfl] at hjournal
    exact hjournal

/-- After `everyHolder`, everybody lets go, the weak handle last. -/
def everybodyLeaves : List Act :=
  [.request ⟨0⟩ ⟨1⟩ (.closeScope ⟨1⟩),
    .tally (.release ⟨1⟩ .strong),
    .request ⟨0⟩ ⟨1⟩ .collectWeak]

/-- Of two objects of which one owns the other, both are gone after everybody let go. -/
theorem run_lifetimes_everybodyLeaves :
    ∃ L, Fair True {} {} (everyHolder ++ everybodyLeaves) L ∧
      ((({} : World).run (everyHolder ++ everybodyLeaves)).heap.cell ⟨0⟩).isDestroyed = true ∧
      (({} : World).run (everyHolder ++ everybodyLeaves)).heap.journal.toList.count
        (.payloadDropped ⟨0⟩) = 1 := by
  obtain ⟨⟨holds, met⟩, hf, rfl⟩ := fair_everyHolder True
  have hrest : ∃ L', Fair True (({} : World).run everyHolder) ⟨0 + .one ⟨1⟩ .strong, met⟩
      everybodyLeaves L' ∧ True := by
    refine exists_fair_cons ⟨nofun, rfl⟩ (total_one_few _ _) (by decide +kernel) ?_
    refine exists_fair_cons (.release ⟨0, _⟩ ⟨1⟩ .strong) (fun _ => Nat.two_pow_pos 31)
      (by decide +kernel) ?_
    refine exists_fair_cons (allows_collectWeak ?_) (fun _ => Nat.two_pow_pos 31)
      (by decide +kernel) ⟨_, .nil _ _, trivial⟩
    intro iso hiso r hr c h
    obtain rfl := List.mem_singleton.1 hiso
    obtain rfl := List.mem_singleton.1 hr
    rfl
  obtain ⟨L', hrest, -⟩ := hrest
  have hall := hf.append hrest
  have hmade : ((({} : World).run everyHolder).heap.cell ⟨0⟩).tally.isZero = false := by
    decide +kernel
  have hgone : ((({} : World).run (everyHolder ++ everybodyLeaves)).heap.cell ⟨0⟩).tally.isZero
      = true := by
    decide +kernel
  have hlife := run_lifetimes _ L' hall
  have hmet := hlife.2.2.1 ⟨0⟩ everyHolder everybodyLeaves rfl hmade
  obtain ⟨-, hd, hdropped⟩ := hlife.2.2.2.1 ⟨0⟩ hmet hgone
  exact ⟨L', hall, hd, hdropped⟩

end World
end EngineHandles
