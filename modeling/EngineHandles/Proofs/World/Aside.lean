/-
# Threads that stay where they are

Whatever a thread does not call itself leaves it where it is: its enters and its registry
entries stay, and no isolate that it is in ends (`World.Aside.act`).  In particular the calls
of one thread leave all others where they are (`World.aside_of_entryCall?`).
-/

import EngineHandles.Proofs.World.Run

namespace EngineHandles
namespace World

variable {w w' w'' : World} {t u : ThreadKey} {i j : IsolateId} {iso iso' : Isolate}

/-! ### Finding isolates -/

theorem isolate?_setIsolate (w : World) (iso : Isolate) (j : IsolateId) :
    (w.setIsolate iso).isolate? j
      = (w.isolate? j).map fun iso' => if j = iso.id then iso else iso' := by
  have hkey : ∀ x : Isolate, (if x.id = iso.id then iso else x).id = x.id := by
    intro x
    split
    · next h => exact h.symm
    · rfl
  have hmap := Keyed.find?_map Isolate.id hkey w.isolates j
  refine hmap.trans ?_
  show (w.isolate? j).map _ = _
  cases hj : w.isolate? j with
  | none => rfl
  | some x =>
    obtain ⟨-, rfl⟩ := mem_of_isolate? hj
    rfl

theorem isolate?_reap (w : World) (i j : IsolateId) :
    (w.reap i).isolate? j = w.isolate? j ∨
      w.isReferenced i = false ∧ j = i ∧ (w.reap i).isolate? j = none := by
  cases href : w.isReferenced i with
  | true =>
    rw [reap, if_pos href]
    exact .inl rfl
  | false =>
    rcases w.reap_cases i with hr | ⟨iso, -, hr⟩
    · rw [hr]
      exact .inl rfl
    · have hfind := Keyed.find?_filter_ne Isolate.id w.isolates j i
      rw [hr]
      by_cases hj : j = i
      · exact .inr ⟨rfl, hj, hfind.trans (if_pos hj)⟩
      · exact .inl (hfind.trans (if_neg hj))

/-- A thread refers to the isolates that it is in. -/
theorem isReferenced_of_mem_enters (hi : i ∈ w.enters t) : w.isReferenced i = true := by
  unfold enters at hi
  cases hfind : w.entered.find? fun e => e.1 == t with
  | none =>
    rw [hfind] at hi
    cases hi
  | some e =>
    rw [hfind] at hi
    have hany : (w.entered.any fun e => e.2.contains i) = true :=
      List.any_eq_true.2 ⟨e, List.mem_of_find?_eq_some hfind, List.elem_iff.2 hi⟩
    rw [isReferenced, hany, Bool.or_true]

theorem enters_reap (w : World) (i : IsolateId) (t : ThreadKey) :
    (w.reap i).enters t = w.enters t := by
  rcases w.reap_cases i with hr | ⟨iso, -, hr⟩
  · rw [hr]
  · rw [hr]
    rfl

/-! ### What others do -/

/-- A thread stays where it is: its enters are the same, the isolates that it is in remain,
and all isolates that remain have the same entry for it. -/
structure Aside (t : ThreadKey) (w w' : World) : Prop where
  enters_eq : w'.enters t = w.enters t
  stays : ∀ i ∈ w.enters t, (w.isolate? i).isSome = true → (w'.isolate? i).isSome = true
  origin : ∀ {i iso'}, w'.isolate? i = some iso' →
    ∃ iso, w.isolate? i = some iso ∧ iso'.registry.get? t = iso.registry.get? t

namespace Aside

theorem of_isolates_eq (henters : w'.enters t = w.enters t) (h : w'.isolates = w.isolates) :
    Aside t w w' := by
  have hfind : ∀ i, w'.isolate? i = w.isolate? i := by
    intro i
    rw [isolate?, h, isolate?]
  refine ⟨henters, fun i _ hi => ?_, fun {i iso'} hi => ⟨iso', ?_, rfl⟩⟩
  · rw [hfind]
    exact hi
  · rw [← hfind]
    exact hi

theorem refl (t : ThreadKey) (w : World) : Aside t w w := .of_isolates_eq rfl rfl

theorem of_registries_eq (t : ThreadKey) (hentered : w'.entered = w.entered)
    (h : ∀ i, (w'.isolate? i).map Isolate.registry = (w.isolate? i).map Isolate.registry) :
    Aside t w w' := by
  refine ⟨by rw [enters, hentered, enters], fun i _ hsome => ?_, fun {i iso'} hi => ?_⟩
  · rw [← Option.isSome_map (f := Isolate.registry), h, Option.isSome_map]
    exact hsome
  · have hsame := h i
    rw [hi, Option.map_some] at hsame
    obtain ⟨iso, hi, hreg⟩ := Option.map_eq_some_iff.1 hsame.symm
    exact ⟨iso, hi, by rw [hreg]⟩

theorem trans (h : Aside t w w') (h' : Aside t w' w'') : Aside t w w'' := by
  refine ⟨h'.enters_eq.trans h.enters_eq, fun i hi hsome => ?_, fun hi => ?_⟩
  · have hi' : i ∈ w'.enters t := h.enters_eq ▸ hi
    exact h'.stays i hi' (h.stays i hi hsome)
  · obtain ⟨iso', hi', hget'⟩ := h'.origin hi
    obtain ⟨iso, hi, hget⟩ := h.origin hi'
    exact ⟨iso, hi, hget'.trans hget⟩

/-- An isolate changes, but not what its registry says of the thread. -/
theorem setIsolate (hi : w.isolate? i = some iso) (hid : iso'.id = i)
    (hreg : iso'.registry.get? t = iso.registry.get? t) : Aside t w (w.setIsolate iso') := by
  refine ⟨rfl, fun j _ hsome => ?_, fun {j x} hj => ?_⟩
  · rw [isolate?_setIsolate, Option.isSome_map]
    exact hsome
  · rw [isolate?_setIsolate] at hj
    obtain ⟨y, hy, rfl⟩ := Option.map_eq_some_iff.1 hj
    refine ⟨y, hy, ?_⟩
    split
    · next hji =>
      rw [hji, hid, hi] at hy
      obtain rfl := Option.some.inj hy
      exact hreg
    · rfl

/-- An isolate that a thread is in does not end. -/
theorem reap (t : ThreadKey) (w : World) (i : IsolateId) : Aside t w (w.reap i) := by
  refine ⟨w.enters_reap i t, fun j hj hsome => ?_, fun {j iso'} hj => ?_⟩
  · rcases w.isolate?_reap i j with h | ⟨href, rfl, -⟩
    · rw [h]
      exact hsome
    · rw [isReferenced_of_mem_enters hj] at href
      cases href
  · rcases w.isolate?_reap i j with h | ⟨-, -, h⟩ <;> rw [h] at hj
    · exact ⟨iso', hj, rfl⟩
    · cases hj

/-- A thread enters and leaves no isolate by using it, nor does any other. -/
theorem serve (t : ThreadKey) (hi : w.isolate? i = some iso) (u : ThreadKey) (r : Request) :
    Aside t w (w.put (r.serve u iso w.shared).2) := by
  have hserved := r.served u iso w.shared
  refine .trans (.setIsolate hi (hserved.id_eq.trans (mem_of_isolate? hi).2) ?_)
    (.of_isolates_eq rfl rfl)
  rw [hserved.registry_eq]

/-- The work of threads and guards leaves the other threads where they are. -/
theorem works {P : ThreadKey → Prop} (h : Works P w w') (ht : ¬ P t) : Aside t w w' := by
  induction h with
  | beside hi _ _ _ henters => exact .of_isolates_eq (henters t ht) hi
  | rewrite hi hid _ hreg => exact .setIsolate hi hid (hreg t ht)
  | serve hi u _ => exact .serve t hi u _
  | reap w i => exact .reap t w i
  | trans _ _ ih₁ ih₂ => exact ih₁.trans ih₂

theorem request (t : ThreadKey) (w : World) (u : ThreadKey) (i : IsolateId) (r : Request) :
    Aside t w (w.act (.request u i r)) := by
  rw [act_request]
  cases hi : w.isolate? i with
  | none => exact .refl t w
  | some iso => exact .serve t hi u r

/-- **Whatever a thread does not call itself** leaves it where it is, unless it ends. -/
theorem act {a : Act} (ht : ¬ w.Moves a t) (hnew : ∀ c, a ≠ .newIsolate c) :
    Aside t w (w.act a) := by
  cases a with
  | tally | make | furnish => exact .of_isolates_eq rfl rfl
  | newIsolate c => exact absurd rfl (hnew c)
  | request u i r => exact .request t w u i r
  | openGuarded u i =>
    exact .trans (.request t w u i .openScope) (.works (w.works_openGuarded u i) id)
  | _ => exact .works (works_act w rfl) ht

end Aside

/-! ### Calls of enter and exit -/

theorem entryCall?_eq_enter {a : Act} (h : w.entryCall? t a = some (.enter i)) :
    a = .enter t i ∨ a = .enterGuarded t i := by
  cases a <;> simp only [entryCall?, reduceCtorEq, Option.bind_eq_some_iff] at h
  case enter u j | enterGuarded u j =>
    split at h
    · next hu =>
      cases h
      rw [hu]
      simp
    · cases h
  case exit u j =>
    split at h <;> cases h
  case dropGuard g =>
    obtain ⟨x, -, hx⟩ := h
    split at hx <;> cases hx

theorem entryCall?_eq_exit {a : Act} (h : w.entryCall? t a = some (.exit i)) :
    a = .exit t i ∨ ∃ g x, a = .dropGuard g ∧ w.guard? g = some x ∧ x.thread = t ∧
      x.isolate = i ∧ x.kind = .entered := by
  cases a <;> simp only [entryCall?, reduceCtorEq, Option.bind_eq_some_iff] at h
  case enter u j | enterGuarded u j =>
    split at h <;> cases h
  case exit u j =>
    split at h
    · next hu =>
      cases h
      exact .inl (hu ▸ rfl)
    · cases h
  case dropGuard g =>
    obtain ⟨x, hx, hcall⟩ := h
    split at hcall
    · next hk =>
      cases hcall
      exact .inr ⟨g, x, rfl, hx, hk.1, rfl, hk.2⟩
    · cases hcall

/-- A call of a thread moves no other thread, and makes no isolate. -/
theorem aside_of_entryCall? {a : Act} (ha : (w.entryCall? t a).isSome = true) (hu : u ≠ t) :
    Aside u w (w.act a) := by
  obtain ⟨c, hc⟩ := Option.isSome_iff_exists.1 ha
  refine .act ?_ fun c' hnew => ?_
  · cases c with
    | enter i =>
      rcases entryCall?_eq_enter hc with rfl | rfl <;> simp [Moves, entryCall?, hu.symm]
    | exit i =>
      rcases entryCall?_eq_exit hc with rfl | ⟨g, x, rfl, hx, rfl, -, -⟩
      · simp [Moves, entryCall?, hu.symm]
      · simp [Moves, entryCall?, hx, hu.symm]
  · subst hnew
    cases hc

end World
end EngineHandles
