/-
# Sweeping again

A sweep counts the callbacks that it calls in one loop and the slots that it empties in
another, and both of them skip what has no record or no slot.  Nothing is skipped, since every
slot of a sweep has both (`Sweep.Ready`): the report counts the decisions that were taken, each
callback once, and then a revival or an emptied slot (`Sweep.judgeAll_adds`).

Each slot that is decided loses its record, and none gains one.  So a sweep that calls a
callback leaves fewer records, whatever callbacks and destructors do to the tallies
(`Counted.weakCount_sweep`), and one that calls none changes nothing (`sweep_idle`).  What a
sweep drops may bring other slots near death.  Even so, sweeping again and again comes to rest,
after as many sweeps as there were records at most (`Counted.reports_end`).
-/

import EngineHandles.Proofs.Persistent.Counters

namespace EngineHandles

/-! ### Decisions counted -/

/-- What a report counts besides for decisions that were taken and a number of slots that were
emptied. -/
structure SweepReport.Adds (before after : SweepReport) (ds : List Decision) (emptied : Nat) :
    Prop where
  invoked : after.invoked = before.invoked + ds.length
  revived : after.revived = before.revived + ds.countP fun d => d.outcome == .revive
  cleared : after.cleared = before.cleared + emptied

namespace SweepReport.Adds

variable {r r' r'' : SweepReport} {ds es : List Decision} {m n : Nat}

theorem nil (r : SweepReport) : r.Adds r [] 0 := ⟨rfl, rfl, rfl⟩

theorem append (h : r.Adds r' ds m) (h' : r'.Adds r'' es n) : r.Adds r'' (ds ++ es) (m + n) := by
  constructor
  · rw [h'.invoked, h.invoked, List.length_append, Nat.add_assoc]
  · rw [h'.revived, h.revived, List.countP_append, Nat.add_assoc]
  · rw [h'.cleared, h.cleared, Nat.add_assoc]

end SweepReport.Adds

namespace Sweep

variable {w : Sweep} {o : ObjectId} {addr : SlotAddr}

/-- Asking a slot counts its decision; the slot is emptied later. -/
theorem report_ask {r : WeakRecord}
    (hk : w.store.kept addr = (some (.holding o .weak), some r)) :
    w.report.Adds (w.ask o addr).2.report (w.decision? o addr).toList 0 := by
  obtain ⟨hx, hr⟩ := Prod.mk.inj hk
  rw [ask_of_some hr, decision?, hr, Option.map_some, Option.toList_some]
  cases ho : (w.replyOf o addr r).outcome with
  | release => exact ⟨rfl, rfl, rfl⟩
  | revive =>
    dsimp only
    rw [revive, hx]
    exact ⟨rfl, rfl, rfl⟩

theorem report_askAll {addrs : List SlotAddr} (hnd : addrs.Nodup)
    (hk : ∀ a ∈ addrs, ∃ r, w.store.kept a = (some (.holding o .weak), some r)) :
    w.report.Adds (w.askAll o addrs).2.report (w.decideAll o addrs) 0 := by
  induction addrs generalizing w with
  | nil => exact .nil _
  | cons addr rest ih =>
    rw [List.nodup_cons] at hnd
    obtain ⟨r, hr⟩ := hk addr List.mem_cons_self
    exact (report_ask hr).append (ih hnd.2 (held_ask hnd.1 hk))

/-- Emptying a slot counts it. -/
theorem report_clear (hx : (w.store.slots.get? addr).isSome = true) :
    w.report.Adds (w.clear addr).report [] 1 := by
  obtain ⟨x, hx⟩ := Option.isSome_iff_exists.1 hx
  have hx' : (w.store.forget addr).slots.get? addr = some x := hx
  simp only [Sweep.clear, hx']
  exact ⟨rfl, rfl, rfl⟩

theorem report_clearAll {addrs : List SlotAddr}
    (hx : ∀ a ∈ addrs, (w.store.slots.get? a).isSome = true) :
    w.report.Adds (addrs.foldl Sweep.clear w).report [] addrs.length := by
  induction addrs generalizing w with
  | nil => exact .nil _
  | cons addr rest ih =>
    have hrest : ∀ a ∈ rest, ((w.clear addr).store.slots.get? a).isSome = true := fun a ha => by
      have hkept := congrArg Prod.fst (w.kept_clear addr a)
      rw [show (w.clear addr).store.slots.get? a = _ from hkept]
      have := hx a (List.mem_cons_of_mem _ ha)
      split
      · rwa [Option.isSome_map]
      · exact this
    rw [List.length_cons, Nat.add_comm]
    exact (report_clear (hx addr List.mem_cons_self)).append (ih hrest)

/-- **Deciding an object** counts its decisions, and a slot for each that lets it go. -/
theorem judge_adds {d : Doomed} (hnd : d.slots.Nodup)
    (hk : ∀ a ∈ d.slots, ∃ r, w.store.kept a = (some (.holding d.object .weak), some r)) :
    let ds := w.decideAll d.object d.slots
    w.report.Adds (w.judge d).report ds (letGo ds).length := by
  intro ds
  obtain ⟨-, -, hgo, -⟩ := askAll_asked hnd hk
  obtain ⟨hsub, hkept⟩ := kept_letGo hnd hk
  have hstored : ∀ a ∈ (w.askAll d.object d.slots).1,
      ((w.askAll d.object d.slots).2.store.slots.get? a).isSome = true := fun a ha => by
    obtain ⟨r, hr⟩ := hk a (hsub.subset ha)
    rw [show (w.askAll d.object d.slots).2.store.slots.get? a = _ from
      congrArg Prod.fst ((hkept a ha).trans hr)]
    rfl
  have hboth := (report_askAll hnd hk).append (report_clearAll hstored)
  rw [List.append_nil, Nat.zero_add] at hboth
  rw [show letGo ds = _ from hgo.symm]
  exact hboth

/-- **Deciding objects** counts all decisions. -/
theorem judgeAll_adds {ds : List Doomed} (hr : w.Ready ds) :
    w.report.Adds (ds.foldl Sweep.judge w).report (w.decisions ds)
      (letGo (w.decisions ds)).length := by
  induction ds generalizing w with
  | nil => exact .nil _
  | cons d ds ih =>
    have hboth := (judge_adds hr.head.1 hr.head.2).append (ih hr.judge)
    rwa [← List.length_append, letGo, letGo, ← List.map_append, ← List.filter_append] at hboth

end Sweep

namespace PersistentStore

variable {s : PersistentStore} {h : Heap} {latest : SlotAddr → Option WeakRecord}

/-- **A report** counts what the callbacks of the sweep decide. -/
theorem Recorded.sweep_adds (hs : s.Recorded latest) (h : Heap) :
    SweepReport.Adds {} (s.sweep h).1 (s.decisions h) (Sweep.letGo (s.decisions h)).length :=
  Sweep.judgeAll_adds (hs.ready h)

/-- Each callback that was called revived its slot or let it go. -/
theorem Recorded.sweep_balanced (hs : s.Recorded latest) (h : Heap) :
    (s.sweep h).1.invoked = (s.sweep h).1.revived + (s.sweep h).1.cleared := by
  have hadds := hs.sweep_adds h
  have hlength := Sweep.length_eq_add_letGo (s.decisions h)
  rw [hadds.invoked, hadds.revived, hadds.cleared, hlength]
  simp only [Nat.zero_add]

/-! ### Records used up -/

/-- No slot is decided twice. -/
theorem Recorded.nodup_decisions (hs : s.Recorded latest) (h : Heap) :
    ((s.decisions h).map fun d => d.call.slot).Nodup := by
  have hslots : ((s.decisions h).map fun d => d.call.slot)
      = (Doomed.pairs (s.doomed h)).map Prod.fst := by
    rw [← (Sweep.judgeAll_decided (hs.ready h)).1, List.map_map]
    rfl
  rw [hslots]
  exact hs.stored.nodup_pairs h

/-- The addresses with a record are those that have one after a sweep and those that it
decided. -/
theorem Counted.perm_sweep (hc : s.Counted) (hs : s.Recorded latest) (h : Heap) :
    ((s.sweep h).2.1.records.map Prod.fst ++ (s.decisions h).map fun d => d.call.slot).Perm
      (s.records.map Prod.fst) := by
  obtain ⟨-, hof, hdecided, -⟩ := Sweep.judgeAll_decided (hs.ready h)
  have hgone : ∀ d ∈ s.decisions h, (s.sweep h).2.1.record? d.call.slot = none := fun d hd => by
    cases ho : d.outcome with
    | release => exact congrArg Prod.snd (hdecided.released d hd ho)
    | revive => exact congrArg Prod.snd (hdecided.revived d hd ho)
  have hmem : ∀ addr, addr ∈ (s.decisions h).map (fun d => d.call.slot)
      ↔ ∃ d ∈ s.decisions h, addr = d.call.slot := fun addr => by
    simp only [List.mem_map, eq_comm]
  refine (List.perm_ext_iff_of_nodup (List.nodup_append.2 ⟨(hc.sweep hs h).1.distinct,
    hs.nodup_decisions h, ?_⟩) hc.distinct).2 fun addr => ?_
  · rintro addr haddr _ hslot rfl
    obtain ⟨d, hd, rfl⟩ := (hmem _).1 hslot
    rw [← isSome_record?_iff, hgone d hd] at haddr
    cases haddr
  · rw [List.mem_append, hmem, ← isSome_record?_iff, ← isSome_record?_iff]
    by_cases ha : ∃ d ∈ s.decisions h, addr = d.call.slot
    · obtain ⟨d, hd, rfl⟩ := ha
      obtain ⟨r, hr, -⟩ := hof d hd
      exact iff_of_true (.inr ⟨d, hd, rfl⟩) (Option.isSome_iff_exists.2 ⟨r, hr⟩)
    · rw [or_iff_left ha, show (s.sweep h).2.1.record? addr = s.record? addr from
        congrArg Prod.snd (hdecided.others addr fun d hd he => ha ⟨d, hd, he⟩)]

/-- **A sweep uses up a record** for each callback that it calls. -/
theorem Counted.weakCount_sweep (hc : s.Counted) (hs : s.Recorded latest) (h : Heap) :
    (s.sweep h).2.1.weakCount + (s.sweep h).1.invoked = s.weakCount := by
  have hlength := (hc.perm_sweep hs h).length_eq
  rw [List.length_append, List.length_map, List.length_map, List.length_map] at hlength
  rw [(hs.sweep_adds h).invoked]
  exact (congrArg _ (Nat.zero_add _)).trans hlength

/-- A sweep that calls no callback changes nothing. -/
theorem Recorded.sweep_idle (hs : s.Recorded latest) (hidle : (s.sweep h).1.invoked = 0) :
    s.sweep h = ({}, s, h) := by
  rw [(hs.sweep_adds h).invoked, Nat.zero_add, List.length_eq_zero_iff] at hidle
  have habout := (hs.sweep_decided h).1
  rw [hidle, List.map_nil] at habout
  have hnear : s.nearDeath h = [] := List.eq_nil_iff_forall_not_mem.2 fun p hp => by
    rw [← mem_byObject, ← habout] at hp
    exact absurd hp List.not_mem_nil
  exact sweep_of_nearDeath_eq_nil hnear

/-! ### Sweeping again and again -/

/-- The reports of sweeps, each right after the one before. -/
def reports (s : PersistentStore) (h : Heap) : Nat → List SweepReport
  | 0 => []
  | n + 1 => (s.sweep h).1 :: (s.sweep h).2.1.reports (s.sweep h).2.2 n

/-- Once nothing is to be done there is nothing more to be done. -/
theorem reports_of_idle (hidle : s.sweep h = ({}, s, h)) (n : Nat) :
    s.reports h n = List.replicate n {} := by
  induction n with
  | zero => rfl
  | succ n ih => rw [reports, hidle, ih, List.replicate_succ]

/-- **Sweeping comes to rest.**  At most as many sweeps as there are records call a callback;
they come first, and all later ones do nothing. -/
theorem Counted.reports_end (hc : s.Counted) (hs : s.Recorded latest) (h : Heap) :
    ∃ busy : List SweepReport, busy.length ≤ s.weakCount ∧ (∀ r ∈ busy, 0 < r.invoked) ∧
      ∀ n, s.reports h (busy.length + n) = busy ++ List.replicate n ({} : SweepReport) := by
  -- on the number of records, of which a busy sweep uses up one at least
  induction hn : s.weakCount using Nat.strong_induction_on generalizing s h with
  | _ n ih =>
    have hless := hc.weakCount_sweep hs h
    rcases Nat.eq_zero_or_pos (s.sweep h).1.invoked with hidle | hbusy
    · exact ⟨[], Nat.zero_le _, nofun, fun m => by
        rw [List.length_nil, Nat.zero_add, List.nil_append, reports_of_idle (hs.sweep_idle hidle)]⟩
    · obtain ⟨busy, hlength, hcall, hreports⟩ :=
        ih _ (by omega) (hc.sweep hs h).1 (hs.sweep h) (s.sweep h).2.2 rfl
      refine ⟨(s.sweep h).1 :: busy, ?_, List.forall_mem_cons.2 ⟨hbusy, hcall⟩, fun m => ?_⟩
      · rw [List.length_cons]
        omega
      · rw [List.length_cons, Nat.add_right_comm, reports, hreports, List.cons_append]

/-- **Sweeps keep their accounts and come to an end,** from every state that calls reach,
whatever callbacks and destructors do to the tallies.  Each callback that a sweep calls revives
its slot or has it emptied; the number of records falls by the callbacks called, and that of the
slots in use by the slots emptied.  So if a store is swept again and again, with nothing else
in between, the sweeps that call a callback come first and are no more than there were records,
even if each of them brings further slots near death, and the reports of all later ones are
zero. -/
theorem run_sweeps_end {c : ArenaConfig} {s₀ : PersistentStore} (hs : ofConfig? c = .ok s₀)
    (h₀ : Heap) (calls : List StoreCall) :
    let s := (s₀.run h₀ calls).1
    let h := (s₀.run h₀ calls).2
    let report := (s.sweep h).1
    let s' := (s.sweep h).2.1
    report.invoked = report.revived + report.cleared ∧
    s'.weakCount + report.invoked = s.weakCount ∧
    s'.live + report.cleared = s.live ∧
    ∃ busy : List SweepReport, busy.length ≤ s.weakCount ∧ (∀ r ∈ busy, 0 < r.invoked) ∧
      ∀ n, s.reports h (busy.length + n) = busy ++ List.replicate n ({} : SweepReport) := by
  intro s h report s'
  have hrec := (Recorded.of_ofConfig? hs).run h₀ calls
  have hc := (Counted.of_ofConfig? hs).run (.of_ofConfig? hs) h₀ calls
  exact ⟨hrec.sweep_balanced h, hc.weakCount_sweep hrec h, (hc.sweep hrec h).2,
    hc.reports_end hrec h⟩

/-- The payload of the object in the first slot owns the strong reference to that in the
second one, so it takes two sweeps until nothing is left to be done. -/
theorem run_sweeps_end_chain :
    let record : WeakRecord := ⟨0, fun _ _ => { outcome := .release }⟩
    let calls : List StoreCall := [.host fun h => (h.make ⟨.unit, []⟩).2.retain ⟨0⟩ .strong,
      .host fun h => (h.make ⟨.unit, [.release ⟨0⟩ .strong]⟩).2, .make ⟨1⟩, .make ⟨0⟩,
      .makeWeak (.ofCounts 0 0) record, .makeWeak (.ofCounts 0 1) record]
    let s₀ : PersistentStore := { slots := { config := ⟨2, 4⟩ } }
    let s := (s₀.run {} calls).1
    let h := (s₀.run {} calls).2
    ofConfig? ⟨2, 4⟩ = .ok s₀ ∧ s.reports h 3 = [⟨1, 0, 1, 1⟩, ⟨1, 0, 1, 1⟩, {}] ∧
      (s.sweep h).2.1.weakCount + (s.sweep h).1.invoked = 2 :=
  ⟨rfl, by decide, (run_sweeps_end (c := ⟨2, 4⟩) rfl {} _).2.1.trans (by decide)⟩

end PersistentStore
end EngineHandles
