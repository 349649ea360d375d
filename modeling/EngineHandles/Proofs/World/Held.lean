/-
# Objects that threads hold

What one thread does leaves the desks of another alone (`World.desk_act`).  So the objects that
its locals hold are referred to throughout, and if the host plays fair they are not destroyed
(`World.alive_act`), whatever is released meanwhile: handles, scopes, whole isolates, and what
callbacks of a sweep let go.
-/

import EngineHandles.Proofs.Isolate.Waning
import EngineHandles.Proofs.World.Accounting
import EngineHandles.Proofs.World.Desks

namespace EngineHandles

/-- A local holds its object in the books. -/
theorem Isolate.total_localHolds_pos {i : Isolate} {t : ThreadKey} {slot : SlotAddr} {o : ObjectId}
    (hs : i.storage.WellFormed) (hr : (some t, slot, o) ∈ i.roots) :
    ∃ stack, (t, stack) ∈ i.storage.scopeStacks ∧ (slot, o) ∈ stack.references ∧
      0 < i.storage.localHolds.total o := by
  rcases List.mem_append.1 hr with hr | hr
  · obtain ⟨⟨u, stack⟩, hmem, hr⟩ := List.mem_flatMap.1 hr
    obtain ⟨r, href, he⟩ := List.mem_map.1 hr
    cases he
    refine ⟨stack, hmem, href, Nat.lt_of_lt_of_le ?_
      (Account.total_le_sum hmem (fun e => e.2.holds) o)⟩
    obtain ⟨c, xs, ps, hf⟩ := hs.framed _ hmem
    have hpos : 0 < stack.references.countP fun r => r.2 == o :=
      List.countP_pos_iff.2 ⟨_, href, beq_self_eq_true o⟩
    rw [stack.countP_references, ← hf.holds_strong] at hpos
    exact Nat.lt_of_lt_of_le hpos (Account.le_total _ _ _)
  · obtain ⟨r, -, he⟩ := List.mem_map.1 hr
    cases he

namespace World

variable {strict : Prop} {w w' : World} {L L' : Ledger} {a : Act} {t : ThreadKey}
  {iso iso' : Isolate} {o : ObjectId} {d : Deed}

/-! ### The acts of other threads -/

theorem mem_deed?_cases {i : IsolateId} {j : Job} (h : w.deed? t i j = some d) :
    d.thread = t ∧ d.isolate ∈ w.isolates := by
  obtain ⟨iso, hi, rfl⟩ := Option.map_eq_some_iff.1 h
  exact ⟨rfl, (mem_of_isolate? hi).1⟩

theorem mem_undoing?_cases {x : Guard} (h : w.undoing? x = some d) :
    d.thread = x.thread ∧ d.isolate ∈ w.isolates := by
  unfold undoing? at h
  split at h
  · exact mem_deed?_cases h
  · exact mem_deed?_cases h
  · cases h
  · cases h

/-- **A deed of an act** is one of the thread that does the act, and finds the lock of an isolate
as it was before. -/
theorem mem_deeds_cases (hd : d ∈ w.deeds a) :
    w.actor? a = some d.thread ∧ ∃ iso ∈ w.isolates, d.isolate.lock = iso.lock := by
  have hdeed : ∀ {t i j}, d ∈ (w.deed? t i j).toList →
      some t = some d.thread ∧ ∃ iso ∈ w.isolates, d.isolate.lock = iso.lock := by
    intro t i j hd
    obtain ⟨ht, hi⟩ := mem_deed?_cases (Option.mem_toList.1 hd)
    exact ⟨congrArg some ht.symm, _, hi, rfl⟩
  have hscope : ∀ {g p}, w.guardedScope? g = some p →
      (w.guard? g).map Guard.thread = some p.1.thread := by
    intro g p hg
    obtain ⟨x, hx, hp⟩ := Option.bind_eq_some_iff.1 hg
    split at hp
    · cases hp
      rw [hx]
      rfl
    · cases hp
  cases a with
  | request t i r => exact hdeed hd
  | enter t i => exact hdeed hd
  | enterGuarded t i => exact hdeed hd
  | exit t i => exact hdeed hd
  | unlock t i => exact hdeed hd
  | openGuarded t i => exact hdeed hd
  | dropGuard g =>
    obtain ⟨x, hg, hx⟩ := Option.bind_eq_some_iff.1 (Option.mem_toList.1 hd)
    obtain ⟨ht, hi⟩ := mem_undoing?_cases hx
    refine ⟨?_, _, hi, rfl⟩
    show (w.guard? g).map Guard.thread = some d.thread
    rw [hg, ht]
    rfl
  | closeGuard g =>
    obtain ⟨p, hg, hx⟩ := Option.bind_eq_some_iff.1 (Option.mem_toList.1 hd)
    obtain ⟨ht, hi⟩ := mem_deed?_cases hx
    exact ⟨(hscope hg).trans (congrArg some ht.symm), _, hi, rfl⟩
  | escapeGuard g l =>
    have hd : d ∈ ((w.guardedScope? g).map fun p => w.escaping p.1 p.2 l).getD [] := hd
    show (w.guard? g).map Guard.thread = some d.thread ∧ _
    cases hg : w.guardedScope? g with
    | none =>
      rw [hg] at hd
      cases hd
    | some p =>
      rw [hg] at hd
      have hd : d ∈ w.escaping p.1 p.2 l := hd
      rw [hscope hg]
      unfold escaping at hd
      split at hd
      · cases hd
      · next d' hd' =>
        obtain ⟨iso, hi, rfl⟩ := Option.map_eq_some_iff.1 hd'
        have hmem := (mem_of_isolate? hi).1
        rcases List.mem_cons.1 hd with rfl | hd
        · exact ⟨rfl, iso, hmem, rfl⟩
        · split at hd
          · -- the escape failed, and its guard is dropped in what it left
            obtain ⟨ht, hleft⟩ := mem_undoing?_cases (Option.mem_toList.1 hd)
            refine ⟨congrArg some ht.symm, ?_⟩
            rcases mem_put_cases hleft with he | ⟨hold, -⟩
            · refine ⟨iso, hmem, ?_⟩
              rw [he]
              exact ((Request.escape p.2 l).served p.1.thread iso w.shared).lock_eq
            · exact ⟨_, hold, rfl⟩
          · cases hd
  | _ => cases hd

theorem Works.nextIsolate_eq {P : ThreadKey → Prop} (h : Works P w w') :
    w'.nextIsolate = w.nextIsolate := by
  induction h with
  | beside _ next _ _ _ => exact next
  | rewrite => rfl
  | serve => rfl
  | reap w i =>
    rcases w.reap_cases i with hr | ⟨iso, -, hr⟩
    · rw [hr]
    · rw [hr]
      rfl
  | trans _ _ ih₁ ih₂ => exact ih₂.trans ih₁

/-- Isolates are made by the host only. -/
theorem nextIsolate_act (w : World) (ha : ∀ c, a ≠ .newIsolate c) :
    (w.act a).nextIsolate = w.nextIsolate := by
  have hrequest : ∀ t i r, (w.act (.request t i r)).nextIsolate = w.nextIsolate := by
    intro t i r
    rw [act_request]
    split <;> rfl
  cases a with
  | tally | make | furnish => rfl
  | newIsolate c => exact absurd rfl (ha c)
  | request t i r => exact hrequest t i r
  | openGuarded t i =>
    exact (w.works_openGuarded t i).nextIsolate_eq.trans
      (hrequest t i .openScope)
  | _ => exact (works_act w rfl).nextIsolate_eq

/-- **An act of another thread** leaves the desks of a thread alone. -/
theorem desk_act (hw : w.WellFormed) (hrooted : ∀ iso ∈ w.isolates, iso.storage.Rooted)
    (ha : w.actor? a ≠ some t) (hi : iso ∈ w.isolates) (hi' : iso' ∈ (w.act a).isolates)
    (hid : iso'.id = iso.id) : iso'.desk t = iso.desk t := by
  by_cases hnew : ∃ c, a = .newIsolate c
  · obtain ⟨c, rfl⟩ := hnew
    rcases w.newIsolate_cases c with hn | ⟨x, hc, hn⟩
    · have hi' : iso' ∈ (w.newIsolate c).2.isolates := hi'
      rw [hn] at hi'
      rw [Option.some.inj ((hw.isolate?_of_mem hi' hid).symm.trans (hw.isolate?_of_mem hi rfl))]
    · have hi' : iso' ∈ w.isolates ++ [x] := by
        have hi' : iso' ∈ (w.newIsolate c).2.isolates := hi'
        rwa [hn] at hi'
      rcases List.mem_append.1 hi' with hi' | hi'
      · rw [Option.some.inj ((hw.isolate?_of_mem hi' hid).symm.trans (hw.isolate?_of_mem hi rfl))]
      · obtain rfl := List.mem_singleton.1 hi'
        have hlt := hw.below iso hi
        rw [← hid, (Isolate.ofConfig?_eq_ok hc).1] at hlt
        exact absurd hlt (Nat.lt_irrefl _)
  · have hothers : ∀ d ∈ w.deeds a, d.isOwn t = false := by
      intro d hd
      have ht : d.thread ≠ t := fun ht => ha (ht ▸ (mem_deeds_cases hd).1)
      rw [Deed.isOwn, beq_eq_false_iff_ne.2 ht, Bool.false_and]
    have hshows : Shows t (fun j => (w.isolate? j).map (Isolate.desk · t)) w := by
      intro x hx
      exact congrArg (Option.map (Isolate.desk · t)) (hw.isolate?_of_mem hx rfl)
    obtain ⟨D, hsession, hD⟩ := (w.log_act a).session
      (w.nextIsolate_act fun c hc => hnew ⟨c, hc⟩) hrooted
      (fun d hd hown => by rw [hothers d hd] at hown; cases hown) hshows
    have hnone : (w.deeds a).filter (Deed.isOwn · t) = [] :=
      List.filter_eq_nil_iff.2 fun d hd => by rw [hothers d hd]; exact Bool.false_ne_true
    rw [hnone] at hsession
    cases hsession
    have hafter := hD iso' hi'
    rw [hid, hshows iso hi] at hafter
    exact (Option.some.inj hafter).symm

/-! ### What an act destroys -/

/-- Threads and guards, at work, make no new reference. -/
theorem Works.wanes {P : ThreadKey → Prop} (h : Works P w w') : w.heap.Wanes w'.heap := by
  induction h with
  | beside _ _ heap _ _ => exact heap ▸ .refl _
  | rewrite => exact .refl _
  | @serve w iso hi t r hr =>
    cases r with
    | closeScope scope => exact Isolate.wanes_closeScope scope
    | escape scope l => exact Isolate.wanes_escape scope l
    | _ => cases hr
  | reap w i =>
    rcases w.reap_cases i with hr | ⟨iso, -, hr⟩
    · rw [hr]
      exact .refl _
    · rw [hr]
      exact iso.storage.wanes_discard w.heap
  | trans _ _ ih₁ ih₂ => exact ih₁.trans ih₂

/-- A reference of a local is held by others than the host and the persistent handles of one
isolate. -/
theorem WellFormed.total_locals_pos (hw : w.WellFormed) (hi : iso ∈ w.isolates)
    (ho : 0 < iso.storage.localHolds.total o) {i : IsolateId} (hi' : w.isolate? i = some iso') :
    0 < (w.othersHold i + iso'.storage.localHolds).total o := by
  rw [Account.total_add]
  by_cases hid : iso.id = i
  · obtain rfl := Option.some.inj ((hw.isolate?_of_mem hi hid).symm.trans hi')
    omega
  · have hmem : iso ∈ w.isolates.filter fun j => j.id != i :=
      List.mem_filter.2 ⟨hi, bne_iff_ne.2 hid⟩
    have hle := Account.total_le_sum hmem (fun j => j.storage.holds) o
    rw [Storage.holds, Account.total_add] at hle
    have : 0 < (w.othersHold i).total o := Nat.lt_of_lt_of_le (by omega) hle
    omega

/-- **An act refers to no destroyed object anew,** if this one is not destroyed and a local holds
it. -/
theorem Books.sound_act (hb : Books strict L w) (hw : w.WellFormed) (ha : Allows strict w L a L')
    (hfits : (w.act a).heap.Fits (L'.holds + (w.act a).slotHolds)) (hi : iso ∈ w.isolates)
    (hheld : 0 < iso.storage.localHolds.total o) (ho : (w.heap.cell o).isDestroyed = false) :
    (w.act a).heap.Sound o := by
  have hs : w.heap.Sound o := .of_alive hb.books.owns ho
  have howns := (hb.act hw ha hfits).books.owns
  cases a with
  | tally op => exact Ledger.Covers.sound ha hs ho
  | make p =>
    refine .of_alive howns ?_
    show (((w.heap.make p).2).cell o).isDestroyed = false
    rw [Heap.cell_make]
    split
    · rfl
    · exact ho
  | furnish x ops =>
    refine .of_alive howns ?_
    show ((w.heap.furnish x ops).cell o).isDestroyed = false
    rw [Heap.cell_furnish]
    split
    · next he =>
      rw [he] at ho
      rw [Cell.isDestroyed, Option.isNone_map]
      exact ho
    · exact ho
  | newIsolate c =>
    show ((w.newIsolate c).2).heap.Sound o
    rcases w.newIsolate_cases c with hn | ⟨x, -, hn⟩ <;> rw [hn] <;> exact hs
  | request t i r =>
    rw [act_request]
    cases hi' : w.isolate? i with
    | none => exact hs
    | some x =>
      by_cases hr : r = .collectWeak
      · subst hr
        rw [Allows, hi'] at ha
        exact Isolate.sound_collectWeak ha (hb.storage hw hi') hs (hw.total_locals_pos hi hheld hi')
      · exact r.sound_serve hr t x hs ho
  | openGuarded t i =>
    have hrequest : (w.act (.request t i .openScope)).heap.Sound o := by
      rw [act_request]
      cases w.isolate? i with
      | none => exact hs
      | some x => exact hs.wanes Isolate.wanes_openScope
    exact hrequest.wanes (w.works_openGuarded t i).wanes
  | _ => exact hs.wanes (works_act w rfl).wanes

/-- **What a thread holds is not destroyed by others.** -/
theorem Books.alive_act (hb : Books strict L w) (hw : w.WellFormed)
    (hrooted : ∀ iso ∈ w.isolates, iso.storage.Rooted) (ha : Allows strict w L a L')
    (hfits : (w.act a).heap.Fits (L'.holds + (w.act a).slotHolds)) (ht : w.actor? a ≠ some t)
    (hi : iso ∈ w.isolates) (hi' : iso' ∈ (w.act a).isolates) (hid : iso'.id = iso.id)
    {slot : SlotAddr} (hr : (some t, slot, o) ∈ iso.roots)
    (ho : (w.heap.cell o).isDestroyed = false) :
    (some t, slot, o) ∈ iso'.roots ∧ ((w.act a).heap.cell o).isDestroyed = false := by
  obtain ⟨stack, hmem, href, hheld⟩ := iso.total_localHolds_pos (hb.storages iso hi) hr
  have hstack := congrArg Desk.stack (desk_act hw hrooted ht hi hi' hid)
  have hfound : iso'.storage.stack? t = some stack :=
    hstack.trans (Storage.stack?_of_mem (hrooted iso hi).owners hmem)
  have hroot : (some t, slot, o) ∈ iso'.roots :=
    List.mem_append_left _ (List.mem_flatMap.2
      ⟨_, Storage.mem_of_stack? hfound, List.mem_map.2 ⟨_, href, rfl⟩⟩)
  have hb' := hb.act hw ha hfits
  obtain ⟨-, -, -, hheld'⟩ := iso'.total_localHolds_pos (hb'.storages iso' hi') hroot
  refine ⟨hroot, hb'.books.alive_of_sound (hb.sound_act hw ha hfits hi hheld ho) ?_⟩
  have hle := Account.total_le_sum hi' (fun j => j.storage.holds) o
  rw [Storage.holds, Account.total_add] at hle
  have hslots : 0 < (w.act a).slotHolds.total o := Nat.lt_of_lt_of_le (by omega) hle
  rw [Account.total_add]
  omega

end World
end EngineHandles
