/-
# Who refers to an isolate

An isolate is there exactly as long as somebody refers to it: the host, a live guard, or an
element of the list of enters of a running thread (`World.Attended`).  While one reference
is given up, one isolate may be without a referrer; it ends before anything else happens.

What giving references up ends is told by `World.Sheds`: which isolates, in which order, that
they stored the same until then, and that the heap is left as their storages leave it, one
discarded after the other.  Every step that takes references and gives references up is of
this kind (`World.Parts`).
-/

import EngineHandles.Proofs.World.Guards

namespace EngineHandles

namespace World

variable {w w' w₁ : World} {t : ThreadKey} {i j : IsolateId} {iso : Isolate}
  {P Q : IsolateId → Prop}

/-- Somebody refers to an isolate. -/
def Refers (w : World) (i : IsolateId) : Prop :=
  i ∈ w.hosts ∨ (∃ g ∈ w.guards, g.isolate = i) ∨ ∃ t, i ∈ w.enters t

/-- What an isolate stores. -/
def storage? (w : World) (i : IsolateId) : Option Storage := (w.isolate? i).map Isolate.storage

theorem isSome_isolate?_iff : (w.isolate? i).isSome = true ↔ i ∈ w.isolates.map Isolate.id := by
  rw [isolate?, List.find?_isSome, List.mem_map]
  simp only [beq_iff_eq]

/-- An operation on an isolate ends none. -/
theorem isSome_put {r : Isolate × Shared} (hi : w.isolate? j = some iso) :
    ((w.put r).isolate? j).isSome = true := by
  have hset := w.isolate?_setIsolate r.1 j
  refine (congrArg Option.isSome hset).trans ?_
  rw [Option.isSome_map, hi]
  rfl

/-- Every isolate that is referred to is there, and every one that is there is referred to,
except one in `P`. -/
structure Attended (P : IsolateId → Prop) (w : World) : Prop where
  wellFormed : w.WellFormed
  guards : (w.guards.map Guard.id).Nodup
  below : ∀ g ∈ w.guards, g.id.number < w.nextGuard
  threads : (w.entered.map Prod.fst).Nodup
  found : ∀ i, w.Refers i → i ∈ w.isolates.map Isolate.id
  kept : ∀ i ∈ w.isolates.map Isolate.id, w.Refers i ∨ P i

/-- Isolates end, in this order; the others store what they stored. -/
structure Sheds (w : World) (ds : List (IsolateId × Storage)) (w' : World) : Prop where
  distinct : (ds.map Prod.fst).Nodup
  found : ∀ d ∈ ds, w.storage? d.1 = some d.2
  storage?_eq : ∀ i, w'.storage? i = if i ∈ ds.map Prod.fst then none else w.storage? i
  heap_eq : w'.heap = ds.foldl (fun h d => d.2.discard h) w.heap

namespace Sheds

theorem of_storage?_eq (h : ∀ i, w'.storage? i = w.storage? i) (hheap : w'.heap = w.heap) :
    w.Sheds [] w' where
  distinct := List.nodup_nil
  found := List.forall_mem_nil _
  storage?_eq := h
  heap_eq := hheap

theorem refl (w : World) : w.Sheds [] w := .of_storage?_eq (fun _ => rfl) rfl

theorem trans {ds ds' : List (IsolateId × Storage)} (h : w.Sheds ds w₁) (h' : w₁.Sheds ds' w') :
    w.Sheds (ds ++ ds') w' := by
  have hnew : ∀ d ∈ ds', d.1 ∉ ds.map Prod.fst ∧ w.storage? d.1 = some d.2 := by
    intro d hd
    have hfound := h'.found d hd
    rw [h.storage?_eq] at hfound
    split at hfound
    · cases hfound
    · next hno => exact ⟨hno, hfound⟩
  refine ⟨?_, fun d hd => ?_, fun i => ?_, ?_⟩
  · rw [List.map_append, List.nodup_append]
    refine ⟨h.distinct, h'.distinct, ?_⟩
    rintro x hx y hy rfl
    obtain ⟨d, hd, rfl⟩ := List.mem_map.1 hy
    exact (hnew d hd).1 hx
  · rcases List.mem_append.1 hd with hd | hd
    · exact h.found d hd
    · exact (hnew d hd).2
  · rw [h'.storage?_eq, h.storage?_eq, List.map_append]
    simp only [List.mem_append]
    by_cases hi : i ∈ ds.map Prod.fst
    · simp only [hi, true_or, if_true, ite_self]
    · simp only [hi, false_or, if_false]
  · rw [h'.heap_eq, h.heap_eq, List.foldl_append]

/-- An isolate is rewritten, but not what it stores. -/
theorem setIsolate {iso' : Isolate} (hi : w.isolate? iso'.id = some iso)
    (hs : iso'.storage = iso.storage) : w.Sheds [] (w.setIsolate iso') := by
  refine .of_storage?_eq (fun j => ?_) rfl
  rw [storage?, isolate?_setIsolate, Option.map_map, storage?]
  cases hj : w.isolate? j with
  | none => rfl
  | some x =>
    refine congrArg some ?_
    rw [Function.comp_apply]
    split
    · next he =>
      rw [he, hi] at hj
      obtain rfl := Option.some.inj hj
      exact hs
    · rfl

/-- An operation that changes nothing that isolates store, and leaves the heap alone. -/
theorem perform? {α : Type} {op : Isolate.Operation α} {a : α}
    (hop : ∀ iso shared, (op iso shared).2.1.id = iso.id ∧
      (op iso shared).2.1.storage = iso.storage ∧ (op iso shared).2.2.heap = shared.heap)
    (h : w.perform? i op = some (a, w')) : w.Sheds [] w' := by
  obtain ⟨iso, hi, -, rfl⟩ := perform?_eq_some_iff.1 h
  obtain ⟨hid, hs, hheap⟩ := hop iso w.shared
  obtain ⟨-, rfl⟩ := mem_of_isolate? hi
  rw [← hid] at hi
  have hset := setIsolate hi hs
  exact hset.trans (.of_storage?_eq (fun _ => rfl) hheap)

end Sheds

/-! ### References that stay -/

namespace Attended

theorem init : ({} : World).Attended P := by
  refine ⟨wellFormed_init, .nil, nofun, .nil, fun i hi => ?_, nofun⟩
  rcases hi with hi | ⟨g, hg, -⟩ | ⟨t, hi⟩
  · cases hi
  · cases hg
  · cases hi

/-- Who is asked whether anybody refers to an isolate. -/
theorem isReferenced_iff (hw : w.Attended P) (i : IsolateId) :
    w.isReferenced i = true ↔ w.Refers i := by
  have henters : (w.entered.any fun e => e.2.contains i) = true ↔ ∃ t, i ∈ w.enters t := by
    rw [List.any_eq_true]
    constructor
    · rintro ⟨⟨t, l⟩, he, hi⟩
      refine ⟨t, ?_⟩
      rw [enters, Keyed.find?_of_mem hw.threads he rfl]
      exact List.elem_iff.1 hi
    · rintro ⟨t, hi⟩
      rw [enters] at hi
      cases hfind : w.entered.find? fun e => e.1 == t with
      | none =>
        rw [hfind] at hi
        cases hi
      | some e =>
        rw [hfind] at hi
        exact ⟨e, List.mem_of_find?_eq_some hfind, List.elem_iff.2 hi⟩
  have hguards : (w.guards.any fun g => g.isolate == i) = true ↔ ∃ g ∈ w.guards, g.isolate = i := by
    rw [List.any_eq_true]
    simp only [beq_iff_eq]
  rw [isReferenced, Bool.or_eq_true, Bool.or_eq_true, henters, hguards, or_assoc, Refers]
  exact or_congr_left List.elem_iff

theorem mono (hw : w.Attended P) (hPQ : ∀ i, P i → Q i) : w.Attended Q :=
  ⟨hw.wellFormed, hw.guards, hw.below, hw.threads, hw.found,
    fun i hi => (hw.kept i hi).imp_right (hPQ i)⟩

/-- An isolate that a thread is in is there. -/
theorem isSome_of_enters (hw : w.Attended P) (hi : i ∈ w.enters t) :
    (w.isolate? i).isSome = true :=
  isSome_isolate?_iff.2 (hw.found i (.inr (.inr ⟨t, hi⟩)))

/-- What changes neither who refers nor which isolates are there. -/
theorem of_eq (hw : w.Attended P) (hwf : w'.WellFormed)
    (hids : w'.isolates.map Isolate.id = w.isolates.map Isolate.id) (hhosts : w'.hosts = w.hosts)
    (hguards : w'.guards = w.guards) (hnext : w'.nextGuard = w.nextGuard)
    (hentered : w'.entered = w.entered) : w'.Attended P := by
  have hrefers : ∀ i, w'.Refers i ↔ w.Refers i := by
    intro i
    simp only [Refers, enters, hhosts, hguards, hentered]
  refine ⟨hwf, hguards ▸ hw.guards, fun g hg => ?_, hentered ▸ hw.threads, fun i hi => ?_,
    fun i hi => ?_⟩
  · rw [hnext]
    exact hw.below g (hguards ▸ hg)
  · rw [hids]
    exact hw.found i ((hrefers i).1 hi)
  · rw [hids] at hi
    rw [hrefers]
    exact hw.kept i hi

theorem withHeap (hw : w.Attended P) (h : Heap) : (w.withHeap h).Attended P :=
  hw.of_eq ⟨hw.wellFormed.ids, hw.wellFormed.below⟩ rfl rfl rfl rfl rfl

theorem put (hw : w.Attended P) {r : Isolate × Shared} (hi : w.isolate? i = some iso)
    (hid : r.1.id = i) : (w.put r).Attended P := by
  refine hw.of_eq (hw.wellFormed.put hi hid) ?_ rfl rfl rfl rfl
  show (w.isolates.map _).map Isolate.id = _
  rw [List.map_map]
  refine List.map_congr_left fun x _ => ?_
  rw [Function.comp_apply]
  split
  · next he => exact he.symm
  · rfl

theorem setIsolate {iso' : Isolate} (hw : w.Attended P) (hi : w.isolate? iso'.id = some iso) :
    (w.setIsolate iso').Attended P := by
  have hput := hw.put (r := (iso', w.shared)) hi rfl
  exact hput

theorem perform? {α : Type} {op : Isolate.Operation α} {a : α} (hw : w.Attended P)
    (hop : ∀ iso shared, (op iso shared).2.1.id = iso.id) (h : w.perform? i op = some (a, w')) :
    w'.Attended P := by
  obtain ⟨iso, hi, -, rfl⟩ := perform?_eq_some_iff.1 h
  obtain ⟨-, rfl⟩ := mem_of_isolate? hi
  exact hw.put hi (hop iso w.shared)

theorem orStay {α : Type} {r : Option (α × World)} (hw : w.Attended P)
    (h : ∀ a w', r = some (a, w') → w'.Attended P) : (w.orStay r).Attended P := by
  cases r with
  | none => exact hw
  | some p => exact h p.1 p.2 rfl

/-! ### References that are taken -/

theorem newIsolate (hw : w.Attended P) (c : IsolateConfig) : (w.newIsolate c).2.Attended P := by
  have hwf := hw.wellFormed.newIsolate c
  rcases w.newIsolate_cases c with hn | ⟨iso, hc, hn⟩
  · rw [hn]
    exact hw
  · have hid := (Isolate.ofConfig?_eq_ok hc).1
    rw [hn] at hwf ⊢
    refine ⟨hwf, hw.guards, hw.below, hw.threads, fun i hi => ?_, fun i hi => ?_⟩
    · rw [List.map_append, List.mem_append]
      rcases hi with hi | hi
      · rcases List.mem_append.1 hi with hi | hi
        · exact .inl (hw.found i (.inl hi))
        · obtain rfl := List.mem_singleton.1 hi
          exact .inr (List.mem_singleton.2 hid.symm)
      · exact .inl (hw.found i (.inr hi))
    · rw [List.map_append] at hi
      rcases List.mem_append.1 hi with hi | hi
      · exact (hw.kept i hi).imp_left fun href => href.imp_left (List.mem_append_left _)
      · obtain rfl := List.mem_singleton.1 hi
        rw [hid]
        exact .inl (.inl (List.mem_append_right _ List.mem_cons_self))

theorem share (hw : w.Attended P) (hi : (w.isolate? i).isSome = true) :
    World.Attended P { w with hosts := w.hosts ++ [i] } := by
  refine ⟨⟨hw.wellFormed.ids, hw.wellFormed.below⟩, hw.guards, hw.below, hw.threads,
    fun j hj => ?_, fun j hj => ?_⟩
  · rcases hj with hj | hj
    · rcases List.mem_append.1 hj with hj | hj
      · exact hw.found j (.inl hj)
      · obtain rfl := List.mem_singleton.1 hj
        exact isSome_isolate?_iff.1 hi
    · exact hw.found j (.inr hj)
  · exact (hw.kept j hj).imp_left fun href => href.imp_left (List.mem_append_left _)

theorem addGuard (hw : w.Attended P) (hi : (w.isolate? i).isSome = true) (t : ThreadKey)
    (kind : GuardKind) : (w.addGuard t i kind).2.Attended P := by
  have hmem : ∀ g, g ∈ (w.addGuard t i kind).2.guards ↔
      g ∈ w.guards ∨ g = ⟨⟨w.nextGuard⟩, t, i, kind⟩ := by
    intro g
    exact List.mem_append.trans (or_congr_right List.mem_singleton)
  refine ⟨⟨hw.wellFormed.ids, hw.wellFormed.below⟩, ?_, fun g hg => ?_, hw.threads,
    fun j hj => ?_, fun j hj => ?_⟩
  · show ((w.guards ++ [_]).map Guard.id).Nodup
    rw [List.map_append, List.nodup_append]
    refine ⟨hw.guards, List.nodup_singleton _, ?_⟩
    rintro x hx y hy rfl
    obtain ⟨g, hg, rfl⟩ := List.mem_map.1 hx
    have hlt := hw.below g hg
    have hid : g.id = ⟨w.nextGuard⟩ := List.mem_singleton.1 hy
    rw [hid] at hlt
    exact Nat.lt_irrefl _ hlt
  · show g.id.number < w.nextGuard + 1
    rcases (hmem g).1 hg with hg | rfl
    · exact Nat.lt_succ_of_lt (hw.below g hg)
    · exact Nat.lt_succ_self _
  · rcases hj with hj | ⟨g, hg, rfl⟩ | hj
    · exact hw.found j (.inl hj)
    · rcases (hmem g).1 hg with hg | rfl
      · exact hw.found g.isolate (.inr (.inl ⟨g, hg, rfl⟩))
      · exact isSome_isolate?_iff.1 hi
    · exact hw.found j (.inr (.inr hj))
  · refine (hw.kept j hj).imp_left fun href => ?_
    rcases href with href | ⟨g, hg, he⟩ | href
    · exact .inl href
    · exact .inr (.inl ⟨g, (hmem g).2 (.inl hg), he⟩)
    · exact .inr (.inr href)

/-- Writing the list of a thread, if every isolate in it is there; the isolates in `P` are
those that are no longer in it. -/
theorem setEnters (hw : w.Attended fun _ => False) {stack : List IsolateId}
    (hfound : ∀ i ∈ stack, (w.isolate? i).isSome = true)
    (hlost : ∀ i ∈ w.enters t, i ∈ stack ∨ P i) : (w.setEnters t stack).Attended P := by
  have hthreads : ((w.setEnters t stack).entered.map Prod.fst).Nodup :=
    Keyed.nodup_write hw.threads (t, stack)
  refine ⟨⟨hw.wellFormed.ids, hw.wellFormed.below⟩, hw.guards, hw.below, hthreads,
    fun j hj => ?_, fun j hj => ?_⟩
  · rcases hj with hj | hj | ⟨u, hj⟩
    · exact hw.found j (.inl hj)
    · exact hw.found j (.inr (.inl hj))
    · rw [enters_setEnters] at hj
      split at hj
      · exact isSome_isolate?_iff.1 (hfound j hj)
      · exact hw.found j (.inr (.inr ⟨u, hj⟩))
  · rcases hw.kept j hj with (href | href | ⟨u, href⟩) | hno
    · exact .inl (.inl href)
    · exact .inl (.inr (.inl href))
    · by_cases hu : u = t
      · rw [hu] at href
        refine (hlost j href).imp_left fun hin => .inr (.inr ⟨t, ?_⟩)
        rw [enters_setEnters, if_pos rfl]
        exact hin
      · refine .inl (.inr (.inr ⟨u, ?_⟩))
        rw [enters_setEnters, if_neg hu]
        exact href
    · cases hno

/-! ### References that are given up -/

/-- An isolate that nobody refers to ends. -/
theorem reap (hw : w.Attended (· = i)) : (w.reap i).Attended fun _ => False := by
  have hwf := hw.wellFormed.reap i
  cases href : w.isReferenced i with
  | true =>
    rw [World.reap, if_pos href]
    refine ⟨hw.wellFormed, hw.guards, hw.below, hw.threads, hw.found, fun j hj => .inl ?_⟩
    rcases hw.kept j hj with hj | rfl
    · exact hj
    · exact (hw.isReferenced_iff j).1 href
  | false =>
    have hno : ¬ w.Refers i := fun h => by
      rw [(hw.isReferenced_iff i).2 h] at href
      cases href
    have hids : (w.reap i).isolates.map Isolate.id = (w.isolates.map Isolate.id).filter (· != i) := by
      rw [World.reap, if_neg (by rw [href]; exact Bool.false_ne_true), List.filter_map]
      split
      · next hnone =>
        symm
        congr 1
        refine List.filter_eq_self.2 fun x hx => bne_iff_ne.2 ?_
        rintro rfl
        have := isSome_isolate?_iff.2 (List.mem_map_of_mem hx)
        rw [hnone] at this
        cases this
      · rfl
    have hrefers : ∀ j, (w.reap i).Refers j ↔ w.Refers j := by
      intro j
      rcases w.reap_cases i with hr | ⟨iso, -, hr⟩
      · rw [hr]
      · rw [hr]
        exact Iff.rfl
    obtain ⟨hguards, hnext, -⟩ := w.reap_frame i
    refine ⟨hwf, ?_, ?_, ?_, fun j hj => ?_, fun j hj => ?_⟩
    · rw [hguards]
      exact hw.guards
    · rw [hguards, hnext]
      exact hw.below
    · rcases w.reap_cases i with hr | ⟨iso, -, hr⟩ <;> (rw [hr]; exact hw.threads)
    · rw [hrefers] at hj
      rw [hids, List.mem_filter, bne_iff_ne]
      refine ⟨hw.found j hj, ?_⟩
      rintro rfl
      exact hno hj
    · rw [hids, List.mem_filter, bne_iff_ne] at hj
      rw [hrefers]
      exact .inl ((hw.kept j hj.1).resolve_right hj.2)

end Attended

/-- At most one isolate ends at a time. -/
theorem exists_sheds_reap (w : World) (i : IsolateId) : ∃ ds, w.Sheds ds (w.reap i) := by
  rcases w.reap_cases i with hr | ⟨iso, hi, hr⟩
  · rw [hr]
    exact ⟨[], .refl w⟩
  · have hstorage : w.storage? i = some iso.storage := by rw [storage?, hi]; rfl
    refine ⟨[(i, iso.storage)], List.nodup_singleton _, ?_, fun j => ?_, ?_⟩
    · intro d hd
      obtain rfl := List.mem_singleton.1 hd
      exact hstorage
    · have hfind := Keyed.find?_filter_ne Isolate.id w.isolates j i
      rw [hr]
      refine (congrArg (Option.map Isolate.storage) hfind).trans ?_
      simp only [List.map_cons, List.map_nil, List.mem_singleton]
      split <;> rfl
    · rw [hr]
      rfl

/-- One world, in which every isolate is referred to, comes from another by references that
are taken and given up. -/
structure Parts (w w' : World) : Prop where
  attended : w'.Attended fun _ => False
  sheds : ∃ ds, w.Sheds ds w'

namespace Parts

theorem refl (hw : w.Attended fun _ => False) : w.Parts w := ⟨hw, [], .refl w⟩

theorem trans (h : w.Parts w₁) (h' : w₁.Parts w') : w.Parts w' := by
  obtain ⟨ds, hds⟩ := h.sheds
  obtain ⟨ds', hds'⟩ := h'.sheds
  exact ⟨h'.attended, _, hds.trans hds'⟩

theorem orStay {α : Type} {r : Option (α × World)} (hw : w.Attended fun _ => False)
    (h : ∀ a w', r = some (a, w') → w.Parts w') : w.Parts (w.orStay r) := by
  cases r with
  | none => exact .refl hw
  | some p => exact h p.1 p.2 rfl

/-- The last step of giving a reference up. -/
theorem reap (w₁ : World) (hsheds : w.Sheds [] w₁) (hw : w₁.Attended (· = i)) :
    w.Parts (w₁.reap i) := by
  obtain ⟨ds, hds⟩ := w₁.exists_sheds_reap i
  exact ⟨hw.reap, _, hsheds.trans hds⟩

theorem releaseHost (hw : w.Attended fun _ => False) (i : IsolateId) :
    w.Parts (w.releaseHost i) := by
  refine reap { w with hosts := w.hosts.erase i } (.of_storage?_eq (fun _ => rfl) rfl) ?_
  refine ⟨⟨hw.wellFormed.ids, hw.wellFormed.below⟩, hw.guards, hw.below, hw.threads,
    fun j hj => ?_, fun j hj => ?_⟩
  · exact hw.found j (hj.imp_left List.mem_of_mem_erase)
  · by_cases hji : j = i
    · exact .inr hji
    · refine .inl (((hw.kept j hj).resolve_right id).imp_left ?_)
      exact (List.mem_erase_of_ne hji).2

theorem removeGuard {g : Guard} (hw : w.Attended fun _ => False) (hg : g ∈ w.guards) :
    w.Parts (w.removeGuard g) := by
  refine reap { w with guards := w.guards.filter fun x => x.id != g.id }
    (.of_storage?_eq (fun _ => rfl) rfl) ?_
  refine ⟨⟨hw.wellFormed.ids, hw.wellFormed.below⟩, ?_, fun x hx => ?_, hw.threads,
    fun j hj => ?_, fun j hj => ?_⟩
  · exact hw.guards.sublist (List.filter_sublist.map _)
  · exact hw.below x (List.mem_filter.1 hx).1
  · refine hw.found j (hj.imp_right (Or.imp_left ?_))
    rintro ⟨x, hx, he⟩
    exact ⟨x, (List.mem_filter.1 hx).1, he⟩
  · rcases (hw.kept j hj).resolve_right id with href | ⟨x, hx, rfl⟩ | href
    · exact .inl (.inl href)
    · -- a guard of the same name is this guard
      by_cases hid : x.id = g.id
      · obtain rfl := List.inj_on_of_nodup_map hw.guards hx hg hid
        exact .inr rfl
      · exact .inl (.inr (.inl ⟨x, List.mem_filter.2 ⟨hx, bne_iff_ne.2 hid⟩, rfl⟩))
    · exact .inl (.inr (.inr href))

/-! Threads that enter and leave. -/

theorem perform? {α : Type} {op : Isolate.Operation α} {a : α} (hw : w.Attended fun _ => False)
    (hop : ∀ iso shared, (op iso shared).2.1.id = iso.id ∧
      (op iso shared).2.1.storage = iso.storage ∧ (op iso shared).2.2.heap = shared.heap)
    (h : w.perform? i op = some (a, w')) : w.Parts w' :=
  ⟨hw.perform? (fun iso shared => (hop iso shared).1) h, [], .perform? hop h⟩

theorem enter? {n : UInt32} (hw : w.Attended fun _ => False) (h : w.enter? t i = some (n, w')) :
    w.Parts w' := by
  unfold World.enter? at h
  split at h
  · cases h
  · next count w₁ hp =>
    cases h
    have hperform := perform? hw (fun _ _ => ⟨rfl, rfl, rfl⟩) hp
    obtain ⟨iso, hi, -, rfl⟩ := perform?_eq_some_iff.1 hp
    refine hperform.trans ⟨hperform.attended.setEnters (fun j hj => ?_) fun j hj => ?_, [],
      .of_storage?_eq (fun _ => rfl) rfl⟩
    · rcases List.mem_cons.1 hj with rfl | hj
      · exact isSome_put hi
      · exact hperform.attended.isSome_of_enters hj
    · exact .inl (List.mem_cons_of_mem i hj)

end Parts

theorem eq_of_splitAtFirst? {l above below : List IsolateId}
    (h : splitAtFirst? i l = some (above, below)) : l = above ++ i :: below := by
  induction l generalizing above with
  | nil => cases h
  | cons x l ih =>
    rw [splitAtFirst?] at h
    split at h
    · next hx =>
      cases h
      rw [hx]
      rfl
    · obtain ⟨⟨above', below'⟩, hsplit, he⟩ := Option.map_eq_some_iff.1 h
      cases he
      rw [ih hsplit]
      rfl

/-- The registry of an isolate is changed. -/
theorem sheds_relink (w : World) (t : ThreadKey) (i : IsolateId) (previous : Option IsolateId) :
    w.Sheds [] (w.relink t i previous) := by
  unfold relink
  split
  · exact .refl w
  · next iso hi =>
    obtain ⟨-, rfl⟩ := mem_of_isolate? hi
    exact .setIsolate hi rfl

theorem Attended.relink (hw : w.Attended P) (t : ThreadKey) (i : IsolateId)
    (previous : Option IsolateId) : (w.relink t i previous).Attended P := by
  unfold World.relink
  split
  · exact hw
  · next iso hi =>
    obtain ⟨-, rfl⟩ := mem_of_isolate? hi
    exact hw.setIsolate hi

/-- An enter of an isolate is undone: this may have been its last referrer. -/
theorem Attended.removeEnter (hw : w.Attended fun _ => False) (t : ThreadKey) (i : IsolateId) :
    (w.removeEnter t i).Attended (· = i) ∧ w.Sheds [] (w.removeEnter t i) := by
  unfold World.removeEnter
  split
  · exact ⟨hw.mono fun _ h => h.elim, .refl w⟩
  · next above below hsplit =>
    have henters := eq_of_splitAtFirst? hsplit
    have hset : (w.setEnters t (above ++ below)).Attended (· = i) := by
      refine hw.setEnters (fun j hj => hw.isSome_of_enters (t := t) ?_) fun j hj => ?_
      · rw [henters]
        simp only [List.mem_append, List.mem_cons] at hj ⊢
        exact hj.imp_right .inr
      · rw [henters] at hj
        simp only [List.mem_append, List.mem_cons] at hj ⊢
        tauto
    have hsheds : w.Sheds [] (w.setEnters t (above ++ below)) := .of_storage?_eq (fun _ => rfl) rfl
    dsimp only
    split
    · exact ⟨hset, hsheds⟩
    · split
      · exact ⟨hset, hsheds⟩
      · exact ⟨hset.relink _ _ _, hsheds.trans (sheds_relink _ _ _ _)⟩

namespace Parts

theorem exit? {r : Except HandleError Unit} (hw : w.Attended fun _ => False)
    (h : w.exit? t i = some (r, w')) : w.Parts w' := by
  have hop : ∀ (iso : Isolate) (shared : Shared), (iso.exit t shared).2.1.id = iso.id ∧
      (iso.exit t shared).2.1.storage = iso.storage ∧
      (iso.exit t shared).2.2.heap = shared.heap := by
    intro iso shared
    unfold Isolate.exit
    split <;> exact ⟨rfl, rfl, rfl⟩
  unfold World.exit? at h
  split at h
  · cases h
  · next hp =>
    cases h
    exact perform? hw hop hp
  · next w₁ hp =>
    cases h
    have hperform := perform? hw hop hp
    obtain ⟨hleft, hsheds⟩ := hperform.attended.removeEnter t i
    exact hperform.trans (.reap _ hsheds hleft)

theorem unwind (hw : w.Attended fun _ => False) {stack : List IsolateId}
    (hstack : ∀ j, j ∈ w.enters t ↔ j ∈ stack) :
    w.Parts (w.unwind t stack) ∧ (w.unwind t stack).enters t = [] := by
  induction stack generalizing w with
  | nil =>
    refine ⟨.refl hw, ?_⟩
    exact List.eq_nil_iff_forall_not_mem.2 fun j hj => List.not_mem_nil ((hstack j).1 hj)
  | cons i rest ih =>
    have hset : (w.setEnters t rest).Attended (· = i) := by
      refine hw.setEnters (fun j hj => hw.isSome_of_enters (t := t) ?_) fun j hj => ?_
      · exact (hstack j).2 (List.mem_cons_of_mem i hj)
      · exact (List.mem_cons.1 ((hstack j).1 hj)).symm
    have hreap := Parts.reap (w := w) (w.setEnters t rest) (.of_storage?_eq (fun _ => rfl) rfl) hset
    have henters : ((w.setEnters t rest).reap i).enters t = rest := by
      rw [enters_reap, enters_setEnters, if_pos rfl]
    obtain ⟨hparts, hnil⟩ := ih hreap.attended fun j => by rw [henters]
    exact ⟨hreap.trans hparts, hnil⟩

theorem endThread (hw : w.Attended fun _ => False) (t : ThreadKey) : w.Parts (w.endThread t) := by
  have hstack : ∀ j, j ∈ w.enters t ↔ j ∈ (w.enters t).reverse := fun j => List.mem_reverse.symm
  obtain ⟨hparts, hnil⟩ := unwind hw hstack
  unfold World.endThread
  generalize w.unwind t (w.enters t).reverse = v at hparts hnil
  have hv := hparts.attended
  have henters : ∀ u, enters { v with entered := v.entered.filter fun e => e.1 != t } u
      = v.enters u := by
    intro u
    rw [enters_filter]
    split
    · next hu => rw [hu, hnil]
    · rfl
  refine hparts.trans ⟨⟨⟨hv.wellFormed.ids, hv.wellFormed.below⟩, hv.guards, hv.below,
    hv.threads.sublist (List.filter_sublist.map _), fun j hj => ?_, fun j hj => ?_⟩, [],
    .of_storage?_eq (fun _ => rfl) rfl⟩
  · refine hv.found j (hj.imp_right (Or.imp_right ?_))
    rintro ⟨u, hu⟩
    rw [henters] at hu
    exact ⟨u, hu⟩
  · refine (hv.kept j hj).imp_left (Or.imp_right (Or.imp_right ?_))
    rintro ⟨u, hu⟩
    rw [← henters] at hu
    exact ⟨u, hu⟩

/-! Guards. -/

theorem addGuard (hw : w.Attended fun _ => False) (hi : (w.isolate? i).isSome = true)
    (t : ThreadKey) (kind : GuardKind) : w.Parts (w.addGuard t i kind).2 :=
  ⟨hw.addGuard hi t kind, [], .of_storage?_eq (fun _ => rfl) rfl⟩

theorem setLock (hw : w.Attended fun _ => False) (hi : w.isolate? i = some iso) (lock : Lock) :
    w.Parts (w.setIsolate { iso with lock }) := by
  obtain ⟨-, rfl⟩ := mem_of_isolate? hi
  exact ⟨hw.setIsolate hi, [], .setIsolate hi rfl⟩

theorem enterGuarded? {g : GuardId} (hw : w.Attended fun _ => False)
    (h : w.enterGuarded? t i = some (g, w')) : w.Parts w' := by
  unfold World.enterGuarded? at h
  split at h
  · cases h
  · next hp =>
    cases h
    have henter := enter? hw hp
    exact henter.trans (.addGuard henter.attended (Beside.isSome_of_enter? hp) t .entered)

theorem lock? {g : GuardId} (hw : w.Attended fun _ => False)
    (h : w.lock? t i = some (g, w')) : w.Parts w' := by
  unfold World.lock? at h
  split at h
  · cases h
  · next iso hi =>
    split at h
    · cases h
    · next lock _ =>
      cases h
      have hset := setLock hw hi lock
      refine hset.trans (.addGuard hset.attended ?_ t .locker)
      rw [isolate?_setIsolate, Option.isSome_map, hi]
      rfl

theorem unlock? {r : Except HandleError GuardId} (hw : w.Attended fun _ => False)
    (h : w.unlock? t i = some (r, w')) : w.Parts w' := by
  have hop : ∀ (iso : Isolate) (shared : Shared), (iso.yieldLock t shared).2.1.id = iso.id ∧
      (iso.yieldLock t shared).2.1.storage = iso.storage ∧
      (iso.yieldLock t shared).2.2.heap = shared.heap := by
    intro iso shared
    unfold Isolate.yieldLock
    dsimp only
    split <;> exact ⟨rfl, rfl, rfl⟩
  unfold World.unlock? at h
  split at h
  · cases h
  · next hp =>
    cases h
    exact perform? hw hop hp
  · next depth w₁ hp =>
    cases h
    have hyield := perform? hw hop hp
    refine hyield.trans (.addGuard hyield.attended ?_ t (.unlocker depth))
    obtain ⟨iso, hi, -, rfl⟩ := perform?_eq_some_iff.1 hp
    exact isSome_put hi

end Parts

end World
end EngineHandles
