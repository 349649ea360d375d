/-
# The isolates behind handles

A handle of an isolate is a reference of the host.  So the isolate behind it is there, until
the handle is given back (`Surface.Sound`).  This needs no bound on the number of handles: each
entry of the table has an isolate of its own, whatever handle names the entry, and the host
has a reference to each of them.

What happens at the surface is calls, and threads that end (`Foreign.Event`).  Each keeps this
(`Sound.step`), and what it does in the world is an act or nothing, so every world behind a
surface is one that a run of acts leaves.
-/

import EngineHandles.Proofs.Foreign.Call
import EngineHandles.Proofs.Lending.Table
import EngineHandles.Proofs.World.Interference

namespace EngineHandles

namespace HandleTable

variable {α : Type} {t : HandleTable α} {h : UInt64} {u v : α} {n : Nat}

/-- The value of the entry at a place. -/
def valueAt? (t : HandleTable α) (n : Nat) : Option α := t.entries[n]?.bind HandleEntry.value

theorem valueAt?_of_get? (hv : t.get? h = some v) : t.valueAt? (indexOf h).toNat = some v := by
  have he : t.entries[(indexOf h).toNat]? = some ⟨generationOf h, some v⟩ := get?_eq_some_iff.1 hv
  rw [valueAt?, he]
  rfl

/-- The value that an entry gets. -/
theorem valueAt?_update (t : HandleTable α) (i : UInt32) (f : HandleEntry α → HandleEntry α)
    (n : Nat) : (t.update i f).valueAt? n
      = if n = i.toNat then (t.entries[n]?.map f).bind HandleEntry.value else t.valueAt? n := by
  rw [valueAt?, update]
  dsimp only
  rw [Array.getElem?_modify]
  by_cases hn : n = i.toNat
  · rw [if_pos hn, if_pos hn.symm]
  · rw [if_neg hn, if_neg (Ne.symm hn), valueAt?]

/-- Lending a value out changes one entry, which holds the value then, if any. -/
theorem valueAt?_insert (t : HandleTable α) (v : α) :
    ∃ k, ∀ n u, (t.insert v).2.valueAt? n = some u →
      n = k ∧ u = v ∨ n ≠ k ∧ t.valueAt? n = some u := by
  rcases hvac : t.vacant with _ | ⟨i, rest⟩
  · refine ⟨t.entries.size, fun n u hu => ?_⟩
    rw [insert_of_vacant_eq_nil hvac, valueAt?] at hu
    dsimp only at hu
    rw [Array.getElem?_push] at hu
    split at hu
    · next hn => exact .inl ⟨hn, (Option.some.inj hu).symm⟩
    · next hn => exact .inr ⟨hn, hu⟩
  · refine ⟨i.toNat, fun n u hu => ?_⟩
    have hu : (t.update i fun e => { e with value := some v }).valueAt? n = some u := by
      rw [insert, hvac] at hu
      exact hu
    rw [valueAt?_update] at hu
    split at hu
    · next hn =>
      refine .inl ⟨hn, ?_⟩
      obtain ⟨e, he, hv⟩ := Option.bind_eq_some_iff.1 hu
      obtain ⟨e', -, rfl⟩ := Option.map_eq_some_iff.1 he
      exact (Option.some.inj hv).symm
    · next hn => exact .inr ⟨hn, hu⟩

/-- Giving a value back empties its entry. -/
theorem valueAt?_remove (hv : t.get? h = some v) (n : Nat) :
    (t.remove h).2.valueAt? n = if n = (indexOf h).toNat then none else t.valueAt? n := by
  rw [remove_of_get? hv]
  show (t.update (indexOf h) fun _ => ⟨generationOf h + 1, none⟩).valueAt? n = _
  rw [valueAt?_update]
  split
  · cases t.entries[n]? <;> rfl
  · rfl

end HandleTable

namespace World

variable {w : World} {c : IsolateConfig} {i : IsolateId}

/-- An isolate that is made has the next id, and the host refers to it. -/
theorem newIsolate_eq_ok (hn : (w.newIsolate c).1 = .ok i) : i = ⟨w.nextIsolate⟩ ∧
    i ∈ (w.newIsolate c).2.hosts ∧ ((w.newIsolate c).2.isolate? i).isSome = true := by
  unfold newIsolate at hn ⊢
  dsimp only at hn ⊢
  cases hc : Isolate.ofConfig? c ⟨w.nextIsolate⟩ with
  | error e =>
    rw [hc] at hn
    cases hn
  | ok iso =>
    rw [hc] at hn
    obtain rfl := Except.ok.inj hn
    refine ⟨rfl, List.mem_append_right _ List.mem_cons_self, ?_⟩
    rw [isolate?, List.find?_isSome]
    refine ⟨iso, List.mem_append_right _ List.mem_cons_self, ?_⟩
    rw [beq_iff_eq]
    exact (Isolate.ofConfig?_eq_ok hc).1

end World

namespace Foreign

/-- What happens at the surface. -/
inductive Event where
  | call (call : Call)
  | endThread (thread : ThreadKey)

namespace Surface

/-- The surface after an event. -/
def step (c : Surface) : Event → Surface
  | .call call => (c.call call).2
  | .endThread t => c.endThread t

/-- The surface after events. -/
def run (c : Surface) (events : List Event) : Surface := events.foldl step c

/-- A surface whose world a run of acts leaves, and which lends out each isolate once, and only
isolates to which the host has a reference. -/
structure Sound (c : Surface) : Prop where
  reached : ∃ acts, c.world = ({} : World).run acts
  hosted : ∀ n i, c.isolates.valueAt? n = some i →
    i ∈ c.world.hosts ∧ (c.world.isolate? i).isSome = true
  distinct : ∀ m n i, c.isolates.valueAt? m = some i → c.isolates.valueAt? n = some i → m = n

namespace Sound

variable {c : Surface} {h : UInt64} {i : IsolateId} {m : Method}

theorem init : ({} : Surface).Sound := ⟨⟨[], rfl⟩, nofun, nofun⟩

/-- The isolates behind handles are there. -/
theorem hosts (hc : c.Sound) : c.Hosts :=
  fun _ i hi => (hc.hosted _ i (HandleTable.valueAt?_of_get? hi)).2

theorem wellFormed (hc : c.Sound) : c.world.WellFormed := by
  obtain ⟨acts, hacts⟩ := hc.reached
  rw [hacts]
  exact World.wellFormed_init.run acts

theorem reached_act (hc : c.Sound) (a : Act) : ∃ acts, c.world.act a = ({} : World).run acts := by
  obtain ⟨acts, hacts⟩ := hc.reached
  refine ⟨acts ++ [a], ?_⟩
  rw [World.run_append, ← hacts]
  rfl

/-- Acts do not take the references that handles of isolates are, but for one that gives such a
reference up. -/
theorem act (hc : c.Sound) {a : Act} (ha : ∀ i, a ≠ .releaseHost i)
    (objects : HandleTable ObjectId) :
    Sound { world := c.world.act a, isolates := c.isolates, objects } := by
  refine ⟨hc.reached_act a, fun n i hi => ?_, hc.distinct⟩
  obtain ⟨hhost, hthere⟩ := hc.hosted n i hi
  obtain ⟨hhost', hstays⟩ := (c.world.log_act a).stays hhost (ha i)
  exact ⟨hhost', hstays hthere⟩

/-- What a method leaves behind, if it is not one that drops an isolate. -/
theorem effect (hc : c.Sound) (hm : ∀ i, m ≠ .dropIsolate i) (objects : HandleTable ObjectId) :
    Sound { world := m.effect c.world, isolates := c.isolates, objects } := by
  cases m with
  | dropIsolate i => exact absurd rfl (hm i)
  | newIsolate config => exact hc.act (a := .newIsolate config) (fun _ => nofun) objects
  | enter t i => exact hc.act (a := .enter t i) (fun _ => nofun) objects
  | exit t i => exact hc.act (a := .exit t i) (fun _ => nofun) objects
  | request t i r => exact hc.act (a := .request t i r) (fun _ => nofun) objects
  | newObject v => exact hc.act (a := .make { datum := .word v }) (fun _ => nofun) objects
  | _ => exact ⟨hc.reached, hc.hosted, hc.distinct⟩

/-- A handle for a new isolate. -/
theorem create (hc : c.Sound) (config : IsolateConfig)
    (hn : (c.world.newIsolate config).1 = .ok i) :
    Sound ⟨(c.world.newIsolate config).2, (c.isolates.insert i).2, c.objects⟩ := by
  have hnew := hc.act (a := .newIsolate config) (fun _ => nofun) c.objects
  obtain ⟨rfl, hhost, hthere⟩ := World.newIsolate_eq_ok hn
  obtain ⟨k, hk⟩ := HandleTable.valueAt?_insert c.isolates (⟨c.world.nextIsolate⟩ : IsolateId)
  -- the new isolate is not lent out before
  have hfresh : ∀ n, c.isolates.valueAt? n ≠ some ⟨c.world.nextIsolate⟩ := by
    intro n hi
    obtain ⟨iso, hiso⟩ := Option.isSome_iff_exists.1 (hc.hosted n _ hi).2
    obtain ⟨hmem, hid⟩ := World.mem_of_isolate? hiso
    have hlt := hc.wellFormed.below iso hmem
    rw [hid] at hlt
    exact Nat.lt_irrefl _ hlt
  refine ⟨hnew.reached, fun n j hj => ?_, fun m n j hm hn => ?_⟩
  · rcases hk n j hj with ⟨-, rfl⟩ | ⟨-, hj⟩
    · exact ⟨hhost, hthere⟩
    · exact hnew.hosted n j hj
  · rcases hk m j hm with ⟨hmk, hj⟩ | ⟨-, hm⟩ <;> rcases hk n j hn with ⟨hnk, hj'⟩ | ⟨-, hn⟩
    · rw [hmk, hnk]
    · rw [hj] at hn
      exact absurd hn (hfresh n)
    · rw [hj'] at hm
      exact absurd hm (hfresh m)
    · exact hc.distinct m n j hm hn

/-- A handle of an isolate that is given back: the other isolates stay. -/
theorem destroy (hc : c.Sound) (hi : c.isolates.get? h = some i) :
    Sound ⟨c.world.releaseHost i, (c.isolates.remove h).2, c.objects⟩ := by
  have hvalue := HandleTable.valueAt?_remove hi
  have hold : ∀ n j, (c.isolates.remove h).2.valueAt? n = some j →
      c.isolates.valueAt? n = some j ∧ j ≠ i := by
    intro n j hj
    rw [hvalue] at hj
    split at hj
    · cases hj
    · next hn =>
      refine ⟨hj, ?_⟩
      rintro rfl
      exact hn (hc.distinct _ _ _ hj (HandleTable.valueAt?_of_get? hi))
  refine ⟨hc.reached_act (.releaseHost i), fun n j hj => ?_, fun m n j hm hn => ?_⟩
  · obtain ⟨hj, hne⟩ := hold n j hj
    obtain ⟨hhost, hthere⟩ := hc.hosted n j hj
    obtain ⟨hhost', hstays⟩ := (c.world.log_act (.releaseHost i)).stays hhost
      fun he => hne (Act.releaseHost.inj he).symm
    exact ⟨hhost', hstays hthere⟩
  · exact hc.distinct m n j (hold m j hm).1 (hold n j hn).1

/-- Only to destroy an isolate is to drop one. -/
theorem eq_destroy_of_method? {call : Call} (hm : call.method? c = some (.dropIsolate i)) :
    ∃ h, call = .destroy h := by
  cases call with
  | destroy h => exact ⟨h, rfl⟩
  | persistentNew | localNew =>
    obtain ⟨_, -, hm⟩ := Option.bind_eq_some_iff.1 hm
    obtain ⟨_, -, hm⟩ := Option.map_eq_some_iff.1 hm
    cases hm
  | _ => simp [Call.method?] at hm

/-- A call that neither makes an isolate nor gives one up. -/
theorem other (hc : c.Sound) {call : Call} {r : Result}
    (hcreate : ∀ config out, call ≠ .create config out) (hdestroy : ∀ h, call ≠ .destroy h)
    (hm : call.method? c = some m) :
    Sound ⟨m.effect c.world, (call.lend r c).2.1, (call.lend r c).2.2⟩ := by
  have htable : (call.lend r c).2.1 = c.isolates := by
    unfold Call.lend
    split
    · exact absurd rfl (hcreate _ _)
    · rfl
    · rfl
    · exact absurd rfl (hdestroy _)
    · rfl
    · rfl
  rw [htable]
  refine hc.effect (fun i hi => ?_) _
  rw [hi] at hm
  obtain ⟨h, hcall⟩ := eq_destroy_of_method? hm
  exact hdestroy h hcall

/-- **A call keeps this.** -/
theorem call (hc : c.Sound) (call : Call) : (c.call call).2.Sound := by
  rw [hc.hosts.call_eq, serve]
  split
  · exact hc
  · next m hm =>
    split
    · exact hc
    · next r hr =>
      have hmethod := (resolve_eq_ok_iff.1 hm).1
      -- only two calls do something with the table of isolates
      cases call with
      | create config out =>
        obtain rfl := Option.some.inj hmethod
        obtain rfl := Option.some.inj hr
        cases hn : (c.world.newIsolate (config.getD {}).toIsolateConfig).1 with
        | ok i => exact hc.create _ hn
        | error e => exact hc.effect (m := .newIsolate _) (fun _ h => Method.noConfusion h) c.objects
      | destroy h =>
        obtain ⟨i, hi, rfl⟩ := Option.map_eq_some_iff.1 hmethod
        exact hc.destroy hi
      | _ => exact hc.other (r := r) (fun _ _ h => Call.noConfusion h) (fun _ h => Call.noConfusion h) hmethod

/-- **What happens at the surface keeps this.** -/
theorem step (hc : c.Sound) (e : Event) : (c.step e).Sound := by
  cases e with
  | call call => exact hc.call call
  | endThread t => exact hc.act (a := .endThread t) (fun _ => nofun) c.objects

theorem run (hc : c.Sound) (events : List Event) : (c.run events).Sound := by
  induction events generalizing c with
  | nil => exact hc
  | cons e rest ih => exact ih (hc.step e)

end Sound
end Surface
end Foreign
end EngineHandles
