/-
# What hosts are told of failures

In every run the signals are those of the deeds that failed, in order and one each, with the
errors that they answered (`World.Log.signals_eq`).  An isolate is marked failed just if an
earlier deed on it failed with something other than that the engine is dead
(`World.Log.marked`).
-/

import EngineHandles.Proofs.World.Log

namespace EngineHandles

/-- Every job signals its failure, once. -/
theorem Job.signals_serve (j : Job) (t : ThreadKey) (i : Isolate) (w : Shared) :
    i.Signals w (j.serve t i w) := by
  cases j with
  | request r => exact (r.signals_serve t i w).map _
  | enter previous => exact .of_ok rfl rfl rfl
  | exit => exact Isolate.signals_exit.map _
  | yieldLock => exact Isolate.signals_yieldLock.map _

/-- No job but to make a persistent handle depends on the marks of the isolate. -/
theorem Job.alike_serve {j : Job} (hmake : ∀ o, j ≠ .request (.makePersistent o))
    (hpersist : ∀ l, j ≠ .request (.persistLocal l)) (t : ThreadKey) (i : Isolate)
    (failed dead : Bool) (w : Shared) :
    Isolate.Outcome.Alike (j.serve t i w) (j.serve t (i.marked failed dead) w) := by
  cases j with
  | request r =>
    refine (Request.alike_serve (fun o h => ?_) (fun l h => ?_) t i failed dead w).map _
    · exact hmake o (congrArg _ h)
    · exact hpersist l (congrArg _ h)
  | enter previous => exact ⟨rfl, rfl, failed, dead, rfl⟩
  | exit =>
    refine Isolate.Outcome.Alike.map ?_ _
    have hregistry : (i.marked failed dead).registry = i.registry := rfl
    unfold Isolate.exit
    rw [hregistry]
    split <;> exact ⟨rfl, rfl, _, dead, rfl⟩
  | yieldLock =>
    refine Isolate.Outcome.Alike.map ?_ _
    have hlock : (i.marked failed dead).lock = i.lock := rfl
    unfold Isolate.yieldLock
    rw [hlock]
    dsimp only
    split <;> exact ⟨rfl, rfl, _, dead, rfl⟩

namespace Deed

/-- The failure that the host is told of. -/
def failure? (d : Deed) : Option (IsolateId × HandleError) :=
  d.error?.map fun e => (d.isolate.id, e)

/-- Whether a deed marks its isolate failed. -/
def Marks (d : Deed) : Prop := ∃ e, d.error? = some e ∧ e ≠ .engineDead

theorem signals (d : Deed) : d.isolate.Signals d.shared d.outcome :=
  d.job.signals_serve d.thread d.isolate d.shared

/-- An isolate is marked after a deed if it was, or the deed marks it. -/
theorem failed_outcome (d : Deed) :
    d.outcome.2.1.failed = true ↔ d.isolate.failed = true ∨ d.Marks := by
  rw [d.signals.failed_eq, Bool.or_eq_true, Option.any_eq_true]
  refine or_congr_right (exists_congr fun e => and_congr_right fun _ => ?_)
  rw [bne_iff_ne]

end Deed

namespace Isolate

variable {iso iso' : Isolate} {ds : List Deed} {d : Deed}

/-- An isolate is marked failed just if one of these deeds marked it. -/
def MarkedBy (ds : List Deed) (iso : Isolate) : Prop :=
  iso.failed = true ↔ ∃ d ∈ ds, d.isolate.id = iso.id ∧ d.Marks

theorem Retains.markedBy (h : iso.Retains iso') (hm : iso.MarkedBy ds) : iso'.MarkedBy ds := by
  unfold MarkedBy at hm ⊢
  rw [h.failed_eq, h.id_eq]
  exact hm

/-- No deed was done yet on a new isolate. -/
theorem markedBy_of_ofConfig? {c : IsolateConfig} {id : IsolateId} (hc : ofConfig? c id = .ok iso)
    (hds : ∀ d ∈ ds, d.isolate.id ≠ id) : iso.MarkedBy ds := by
  obtain ⟨persistents, -, rfl⟩ := exists_of_ofConfig? hc
  exact iff_of_false nofun fun ⟨d, hd, hid, _⟩ => hds d hd hid

/-- A deed on another isolate marks this one not. -/
theorem MarkedBy.concat_of_ne (hm : iso.MarkedBy ds) (hd : d.isolate.id ≠ iso.id) :
    iso.MarkedBy (ds ++ [d]) := by
  refine hm.trans ⟨fun ⟨d', hd', h⟩ => ⟨d', List.mem_append_left _ hd', h⟩, ?_⟩
  rintro ⟨d', hd', hid, h⟩
  rcases List.mem_append.1 hd' with hd' | hd'
  · exact ⟨d', hd', hid, h⟩
  · rw [List.mem_singleton.1 hd'] at hid
    exact absurd hid hd

/-- What a deed leaves of its isolate. -/
theorem MarkedBy.outcome (hm : d.isolate.MarkedBy ds) : d.outcome.2.1.MarkedBy (ds ++ [d]) := by
  unfold MarkedBy at hm ⊢
  rw [d.failed_outcome, hm, d.id_outcome]
  constructor
  · rintro (⟨d', hd', h⟩ | h)
    · exact ⟨d', List.mem_append_left _ hd', h⟩
    · exact ⟨d, List.mem_append_right _ (List.mem_singleton_self d), rfl, h⟩
  · rintro ⟨d', hd', hid, h⟩
    rcases List.mem_append.1 hd' with hd' | hd'
    · exact .inl ⟨d', hd', hid, h⟩
    · exact .inr (List.mem_singleton.1 hd' ▸ h)

end Isolate

namespace World

variable {w w' : World} {P : IsolateId → Prop} {ds : List Deed}

/-- **The hosts are told of the deeds that failed,** in order. -/
theorem Log.signals_eq (h : Log P w ds w') :
    w'.shared.signals.toList.map (fun s => (s.isolate, s.error))
      = w.shared.signals.toList.map (fun s => (s.isolate, s.error))
        ++ ds.filterMap Deed.failure? := by
  induction h with
  | upkeep h =>
    obtain ⟨heap, hshared⟩ := h.shared
    rw [hshared, List.filterMap_nil, List.append_nil]
  | @deed w d hfound hshared =>
    obtain ⟨site, hsignals⟩ := d.signals.signals_eq
    rw [← hshared]
    show d.outcome.2.2.signals.toList.map _ = _
    rw [hsignals, List.map_append]
    refine congrArg _ ?_
    show ((d.error?.map _).toList).map _ = _
    cases he : d.error? <;> simp [Deed.failure?, he]
  | append _ _ ih₁ ih₂ => rw [ih₂, ih₁, List.filterMap_append, List.append_assoc]

/-- **The marks of isolates are those of earlier deeds,** at each deed and in the end. -/
theorem Log.marked (h : Log P w ds w') (past : List Deed)
    (hpast : ∀ d ∈ past, d.isolate.id.number < w.nextIsolate)
    (hids : ∀ iso ∈ w.isolates, iso.id.number < w.nextIsolate)
    (hw : ∀ iso ∈ w.isolates, iso.MarkedBy past) :
    (∀ xs d ys, ds = xs ++ d :: ys → d.isolate.MarkedBy (past ++ xs)) ∧
      ∀ iso ∈ w'.isolates, iso.MarkedBy (past ++ ds) := by
  induction h generalizing past with
  | @upkeep w w' h =>
    refine ⟨fun xs d ys he => absurd he (by simp), fun iso' hi => ?_⟩
    rw [List.append_nil]
    obtain ⟨iso, hoffer, hretains⟩ := h.origin iso' hi
    refine hretains.markedBy ?_
    rcases hoffer with hi | ⟨⟨hge, -⟩, c, hc⟩
    · exact hw iso hi
    · refine Isolate.markedBy_of_ofConfig? hc fun d hd hid => ?_
      have := hpast d hd
      rw [hid] at this
      exact absurd hge (Nat.not_le.2 this)
  | @deed w d hfound =>
    have hmarked := hw d.isolate (mem_of_isolate? hfound).1
    refine ⟨fun xs d' ys he => ?_, fun iso hi => ?_⟩
    · obtain ⟨rfl, rfl, rfl⟩ : xs = [] ∧ d' = d ∧ ys = [] := by
        cases xs with
        | nil => simpa [eq_comm] using he
        | cons x xs => simp at he
      rw [List.append_nil]
      exact hmarked
    · rcases mem_put_cases hi with rfl | ⟨hi, hne⟩
      · exact hmarked.outcome
      · rw [d.id_outcome] at hne
        exact (hw iso hi).concat_of_ne hne.symm
  | @append w w₁ w₂ ds ds' h₁ h₂ ih₁ ih₂ =>
    obtain ⟨hds, hids₁⟩ := h₁.lt_next hids
    obtain ⟨hdeeds, hw₁⟩ := ih₁ past hpast hids hw
    have hpast₁ : ∀ d ∈ past ++ ds, d.isolate.id.number < w₁.nextIsolate := by
      intro d hd
      rcases List.mem_append.1 hd with hd | hd
      · exact Nat.lt_of_lt_of_le (hpast d hd) h₁.next_le
      · exact hds d hd
    obtain ⟨hdeeds', hw₂⟩ := ih₂ (past ++ ds) hpast₁ hids₁ hw₁
    rw [← List.append_assoc]
    refine ⟨fun xs d ys he => ?_, hw₂⟩
    rcases List.append_eq_append_iff.1 he with ⟨as, rfl, hds'⟩ | ⟨bs, rfl, hbs⟩
    · rw [← List.append_assoc]
      exact hdeeds' as d ys hds'
    · cases bs with
      | nil =>
        have := hdeeds' [] d ys hbs.symm
        rwa [List.append_nil, List.append_nil] at this
      | cons b bs =>
        obtain ⟨rfl, rfl⟩ := List.cons.inj hbs
        exact hdeeds xs d bs rfl

/-- **Failures are reported exactly.**  In any run the host is told of the deeds that failed, also
of those of dropped guards, in order and once each, with the error that the caller got and its
wording, and of nothing else.  At each deed, and in the end, an isolate is marked failed just if
an earlier deed on it failed with something other than that the engine is dead, and it stays
marked.  To make a persistent handle fails for the dead engine just if the isolate is marked or its
host says so, before anything is looked at and without touching what is stored; on this no other
operation depends, reading a local to make a handle to its object only by making the handle. -/
theorem run_reports (acts : List Act) :
    let w := ({} : World).run acts
    let deeds := ({} : World).history acts
    w.shared.signals.toList.map (fun s => (s.isolate, s.error, s.error.message))
      = deeds.filterMap (fun d => d.error?.map fun e => (d.isolate.id, e, e.message)) ∧
    (∀ before d after, deeds = before ++ d :: after → d.isolate.MarkedBy before) ∧
    (∀ iso ∈ w.isolates, iso.MarkedBy deeds) ∧
    (∀ more, ∀ iso ∈ w.isolates, iso.failed = true →
      ∀ iso' ∈ (w.run more).isolates, iso'.id = iso.id → iso'.failed = true) ∧
    (∀ iso t o shared,
      ((Isolate.makePersistent iso t o shared).1 = .error .engineDead ↔
        iso.failed = true ∨ iso.engineDead = true) ∧
      (iso.failed = true ∨ iso.engineDead = true → iso.makePersistent t o shared
        = (.error .engineDead, iso.fail .newPersistent .engineDead shared))) ∧
    (∀ iso t l shared, Isolate.persistLocal iso t l shared =
      match (iso.getLocal t l shared).1 with
      | .error e => (.error e, iso.fail .getLocal e shared)
      | .ok o => iso.makePersistent t o shared) ∧
    ∀ j : Job, (∀ o, j ≠ .request (.makePersistent o)) → (∀ l, j ≠ .request (.persistLocal l)) →
      ∀ iso t failed dead shared, Isolate.Outcome.Alike (j.serve t iso shared)
        (j.serve t (iso.marked failed dead) shared) := by
  intro w deeds
  have hlog := ({} : World).log_run acts
  have hmarked := hlog.marked [] (List.forall_mem_nil _) nofun nofun
  refine ⟨?_, hmarked.1, hmarked.2, fun more iso hi hfailed iso' hi' hid => ?_,
    fun iso t o shared => ?_, Isolate.persistLocal_eq, fun j hmake hpersist iso t failed dead shared =>
      Job.alike_serve hmake hpersist t iso failed dead shared⟩
  · have := congrArg (List.map fun p : IsolateId × HandleError => (p.1, p.2, p.2.message))
      hlog.signals_eq
    rw [List.map_map, List.map_append, List.map_filterMap] at this
    refine this.trans (List.filterMap_congr fun d _ => ?_)
    unfold Deed.failure?
    rw [Option.map_map]
    rfl
  · -- the deeds that marked the isolate are among those of the longer run
    have hlog' := ({} : World).log_run (acts ++ more)
    rw [run_append] at hlog'
    have hmarked' := (hlog'.marked [] (List.forall_mem_nil _) nofun nofun).2 iso' hi'
    obtain ⟨d, hd, hdid, hmarks⟩ := (hmarked.2 iso hi).1 hfailed
    refine hmarked'.2 ⟨d, ?_, hdid.trans hid.symm, hmarks⟩
    rw [history_append, ← List.append_assoc]
    exact List.mem_append_left _ hd
  · have hdead : iso.isDead = true ↔ iso.failed = true ∨ iso.engineDead = true := Bool.or_eq_true_iff
    exact ⟨Isolate.makePersistent_eq_engineDead_iff.trans hdead, fun h =>
      Isolate.makePersistent_of_isDead (hdead.2 h) t o shared⟩

end World
end EngineHandles
