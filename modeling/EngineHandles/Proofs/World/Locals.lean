/-
# Locals in every run

A local names the isolate, the scope and the slot of a reference.  Slots are used again as
soon as a scope is closed, and every thread uses the same addresses, so a local could come
to denote something else.  It does not, while the supply of scope ids lasts: on the thread
that made it, it denotes the object it was made for until its scope ends, and then it is
stale for good; on other threads it is stale, and other isolates refuse it
(`World.run_locals`).

That is read off what runs keep (`World.Housed.run`).  Right after a local is answered, its
scope is open at its place and nowhere else, and denotes its object there; afterwards it is
open there at most, and keeps its locals.
-/

import EngineHandles.Proofs.World.Scopes

namespace EngineHandles

/-- A local that was answered: where, and for which object. -/
structure Issued where
  place : Place
  handle : LocalHandle
  object : ObjectId
deriving DecidableEq, Repr

namespace Isolate

/-- The local that a request answers, with its object.  An escape is for the object that
the slot denotes in the scope that is closed. -/
def issued? (i : Isolate) (t : ThreadKey) (w : Shared) : Request → Option (LocalHandle × ObjectId)
  | .addLocal scope o =>
    match (i.addLocalTo t scope o w).1 with
    | .ok (l, _) => some (l, o)
    | .error _ => none
  | .escape scope l =>
    match (i.escape t scope l w).1, (i.getLocal t { l with scope } w).1 with
    | .ok l', .ok o => some (l', o)
    | _, _ => none
  | _ => none

variable {i : Isolate} {t : ThreadKey} {w : Shared} {homes : List Place} {place : Place}

/-- **Right after a local is answered,** it denotes its object on the stack of its thread. -/
theorem issued?_eq_some {r : Request} {l : LocalHandle} {o : ObjectId}
    (hs : ∀ stack, i.storage.stack? t = some stack → stack.Housed homes place)
    (h : i.issued? t w r = some (l, o)) :
    r.opensScope = false ∧ l.isolate = i.id ∧
      ∃ stack, (r.serve t i w).2.1.storage.stack? t = some stack ∧
        stack.get l.scope l.slot = .ok o := by
  cases r with
  | addLocal scope o' =>
    rw [issued?] at h
    split at h
    · next l' f hadd =>
      cases h
      obtain ⟨stack, a, ht, hok, hl, ht'⟩ := addLocalTo_eq_ok hadd
      obtain ⟨rfl, -⟩ := Prod.mk.inj hl
      exact ⟨rfl, rfl, _, ht', (hs stack ht).get_add hok⟩
    · cases h
  | escape scope l₀ =>
    rw [issued?] at h
    split at h
    · next l' o' hesc hget =>
      cases h
      obtain ⟨o', hget', hmoved, -⟩ := escape_ok hs hesc
      cases hget.symm.trans hget'
      obtain ⟨-, hl, hstack⟩ := getLocal_eq_ok_iff.1 hmoved
      exact ⟨rfl, hl.trans (Request.id_serve (.escape scope l₀) t i w), hstack⟩
    · cases h
  | _ => cases h

/-- A local that is created without a scope named is one of the innermost scope. -/
theorem issued?_of_createLocal {o : ObjectId} {l : LocalHandle}
    (h : (i.createLocal t o w).1 = .ok l) : i.issued? t w (.addLocal none o) = some (l, o) := by
  unfold createLocal addLocal at h
  rw [issued?]
  generalize i.addLocalTo t none o w = r at h ⊢
  obtain ⟨_ | ⟨l', f⟩, i', w'⟩ := r
  · cases h
  · cases h
    rfl

/-- Every escape that succeeds answers a local for some object. -/
theorem exists_issued_of_escape {scope : ScopeId} {l l' : LocalHandle}
    (hs : ∀ stack, i.storage.stack? t = some stack → stack.Housed homes place)
    (h : (i.escape t scope l w).1 = .ok l') :
    ∃ o, i.issued? t w (.escape scope l) = some (l', o) := by
  obtain ⟨o, hget, -⟩ := escape_ok hs h
  refine ⟨o, ?_⟩
  rw [issued?, h, hget]

theorem escape_of_issued? {scope : ScopeId} {l l' : LocalHandle} {o : ObjectId}
    (h : i.issued? t w (.escape scope l) = some (l', o)) : (i.escape t scope l w).1 = .ok l' := by
  rw [issued?] at h
  split at h
  · next hesc _ =>
    cases h
    exact hesc
  · cases h

end Isolate

namespace World

variable {w w' : World} {homes : List Place} {place : Place} {stack : ScopeStack}
  {id : ScopeId} {a : Act} {x : Issued}

/-- The local that a request answers. -/
def issuedBy? (w : World) (t : ThreadKey) (i : IsolateId) (r : Request) : Option Issued :=
  (w.isolate? i).bind fun iso => (iso.issued? t w.shared r).map fun (l, o) => ⟨⟨i, t⟩, l, o⟩

/-- The local that an act answers. -/
def issued? (w : World) : Act → Option Issued
  | .request t i r => w.issuedBy? t i r
  | .escapeGuard g l =>
    (w.guardedScope? g).bind fun (x, scope) => w.issuedBy? x.thread x.isolate (.escape scope l)
  | _ => none

/-- Whether a scope is open at a place. -/
def isOpen (w : World) (place : Place) (scope : ScopeId) : Bool :=
  (w.isolate? place.isolate).any fun iso => iso.isOpen place.thread scope

/-! ### The state in which a local is answered -/

/-- A world that differs from another at most by isolates that ended. -/
structure Drops (w w' : World) : Prop where
  next_eq : w'.shared.nextScope = w.shared.nextScope
  isolates : ∀ iso ∈ w'.isolates, iso ∈ w.isolates

theorem Drops.evolves (h : Drops w w') : Evolves w w' :=
  .of_mem h.next_eq fun iso hi => .inl (h.isolates iso hi)

theorem drops_removeGuard (w : World) (g : Guard) : Drops w (w.removeGuard g) := by
  rw [removeGuard]
  rcases reap_cases { w with guards := w.guards.filter fun y => y.id != g.id } g.isolate with
    hr | ⟨iso, -, hr⟩
  · rw [hr]
    exact ⟨rfl, fun _ hi => hi⟩
  · rw [hr]
    exact ⟨rfl, fun _ hi => (List.mem_filter.1 hi).1⟩

/-- A guard's escape that succeeds is one of its isolate, and then the guard is gone. -/
theorem act_escapeGuard_of_ok {g : GuardId} {y : Guard} {scope : ScopeId} {l l' : LocalHandle}
    {iso : Isolate} (hg : w.guardedScope? g = some (y, scope))
    (hi : w.isolate? y.isolate = some iso)
    (h : (iso.escape y.thread scope l w.shared).1 = .ok l') :
    w.act (.escapeGuard g l)
      = (w.put (iso.escape y.thread scope l w.shared).2).removeGuard y := by
  show w.orStay ((w.guardedScope? g).bind fun (x, scope) => w.escapeGuard? x scope l) = _
  rw [hg]
  show w.orStay (w.escapeGuard? y scope l) = _
  unfold escapeGuard? perform?
  rw [hi]
  dsimp only
  rw [h]
  rfl

/-- A world in which a local was just answered that denotes its object at its place. -/
structure Answered (w w' : World) (x : Issued) : Prop where
  owner : x.handle.isolate = x.place.isolate
  evolves : Evolves w w'
  wellFormed : w'.WellFormed
  denotes : ∃ stack, w'.HasStack x.place stack ∧
    stack.get x.handle.scope x.handle.slot = .ok x.object

theorem Housed.issuedBy (hs : Housed homes w) (hw : w.WellFormed) {t : ThreadKey}
    {i : IsolateId} {r : Request} (h : w.issuedBy? t i r = some x) :
    ∃ iso, w.isolate? i = some iso ∧ iso.issued? t w.shared r = some (x.handle, x.object) ∧
      Answered w (w.put (r.serve t iso w.shared).2) x := by
  obtain ⟨iso, hi, h⟩ := Option.bind_eq_some_iff.1 h
  obtain ⟨⟨l, o⟩, hissued, rfl⟩ := Option.map_eq_some_iff.1 h
  obtain ⟨hmem, rfl⟩ := mem_of_isolate? hi
  obtain ⟨hr, hl, stack, ht, hget⟩ := iso.issued?_eq_some (hs.of_stack? hmem) hissued
  have hid := r.id_serve t iso w.shared
  have hstack := HasStack.of_stack? (mem_put hmem hid) ht
  rw [hid] at hstack
  exact ⟨iso, hi, hissued, hl, .serve hmem t hr, hw.put hi hid, stack, hstack, hget⟩

/-- **When a local is answered,** it denotes its object at its place; then at most an isolate
ends. -/
theorem Housed.issued (hs : Housed homes w) (hw : w.WellFormed) (h : w.issued? a = some x) :
    ∃ w₁, Answered w w₁ x ∧ Drops w₁ (w.act a) := by
  cases a with
  | request t i r =>
    obtain ⟨iso, hi, -, hanswered⟩ := hs.issuedBy hw h
    refine ⟨_, hanswered, ?_⟩
    rw [act_request, hi]
    exact ⟨rfl, fun _ hi => hi⟩
  | escapeGuard g l =>
    obtain ⟨⟨y, scope⟩, hg, h⟩ := Option.bind_eq_some_iff.1 h
    obtain ⟨iso, hi, hissued, hanswered⟩ := hs.issuedBy hw h
    refine ⟨_, hanswered, ?_⟩
    rw [act_escapeGuard_of_ok hg hi (Isolate.escape_of_issued? hissued)]
    exact drops_removeGuard _ y
  | _ => cases h

/-! ### The life of a local -/

theorem isOpen_of_mem (hw : w.WellFormed) {iso : Isolate} (hi : iso ∈ w.isolates)
    (hid : iso.id = place.isolate) (scope : ScopeId) :
    w.isOpen place scope = iso.isOpen place.thread scope := by
  rw [isOpen, hw.isolate?_of_mem hi hid, Option.any_some]

/-- A scope is open at a place if it is on the stack there. -/
theorem isOpen_iff (hw : w.WellFormed) (howners : w.OneStackEach) :
    w.isOpen place id = true ↔ ∃ stack, w.HasStack place stack ∧ stack.isOpen id = true := by
  constructor
  · intro h
    obtain ⟨iso, hi, h⟩ := (Option.any_eq_true ..).1 h
    obtain ⟨stack, ht, h⟩ := (Option.any_eq_true ..).1 h
    obtain ⟨hmem, hid⟩ := mem_of_isolate? hi
    exact ⟨stack, ⟨iso, hmem, hid, Storage.mem_of_stack? ht⟩, h⟩
  · rintro ⟨stack, hstack, h⟩
    have ⟨iso, hi, hid, _⟩ := hstack
    rw [isOpen_of_mem hw hi hid, Isolate.isOpen_of_stack? (hstack.stack?_eq hw howners hi hid), h]

/-- A scope that is open now was open before. -/
theorem Keeps.isOpen (h : Keeps id w w') (hw : w.WellFormed) (howners : w.OneStackEach)
    (hw' : w'.WellFormed) (howners' : w'.OneStackEach) (hopen : w'.isOpen place id = true) :
    w.isOpen place id = true := by
  obtain ⟨stack', hstack', hopen⟩ := (isOpen_iff hw' howners').1 hopen
  obtain ⟨stack, hstack, hkeep⟩ := h _ _ hstack' hopen
  exact (isOpen_iff hw howners).2 ⟨stack, hstack, hkeep.isOpen hopen⟩

/-- A scope that is open after a run was open at each point on the way. -/
theorem Housed.isOpen_of_run (hs : Housed homes w) (hw : w.WellFormed) {k : Nat}
    (hk : k < homes.length) (mid rest : List Act)
    (h : homes.length + w.opened (mid ++ rest) ≤ 2 ^ 64)
    (hopen : (w.run (mid ++ rest)).isOpen place (.nth k) = true) :
    (w.run mid).isOpen place (.nth k) = true := by
  rw [opened_append] at h
  obtain ⟨homes₁, hlen₁, hs₁, -⟩ := hs.run mid (by omega)
  obtain ⟨homes₂, -, hs₂, hkeep⟩ := hs₁.run rest (by omega)
  have hend : (w.run mid).run rest = w.run (mid ++ rest) := List.foldl_append.symm
  rw [hend] at hs₂ hkeep
  have hkeep := hkeep k (by omega)
  exact hkeep.isOpen (hw.run mid) hs₁.owners (hw.run (mid ++ rest)) hs₂.owners hopen

/-- **What an answered local denotes** in a world that kept its scope: its object, on the
thread that made it while the scope is open. -/
theorem Answered.getLocal {w₀ w₁ : World} {homes' : List Place} (hx : Answered w₀ w₁ x)
    (hs₁ : Housed homes w₁) (hn : homes.length ≤ 2 ^ 64) (hkeep : Keeps x.handle.scope w₁ w)
    (hs : Housed homes' w) (hw : w.WellFormed) {iso : Isolate} (hi : iso ∈ w.isolates)
    {t : ThreadKey} (ha : iso.accessFault? t = none) :
    (iso.getLocal t x.handle w.shared).1
      = if iso.id ≠ x.place.isolate then .error (.usage (.wrongIsolate x.place.isolate iso.id))
        else if t = x.place.thread ∧ w.isOpen x.place x.handle.scope = true then .ok x.object
        else .error (.usage (.staleLocal x.handle.scope)) := by
  obtain ⟨stack, hstack, hget⟩ := hx.denotes
  by_cases hid : iso.id = x.place.isolate
  · have hl : x.handle.isolate = iso.id := hx.owner.trans hid.symm
    rw [if_neg (not_not_intro hid)]
    cases hopen : iso.isOpen t x.handle.scope with
    | false =>
      rw [Isolate.getLocal_of_not_isOpen (hs.of_stack? hi) ha hl hopen, if_neg]
      rintro ⟨rfl, hopen'⟩
      rw [isOpen_of_mem hw hi hid, hopen] at hopen'
      cases hopen'
    | true =>
      obtain ⟨stack', ht', hopen'⟩ := (Option.any_eq_true ..).1 hopen
      obtain ⟨stack₁, hstack₁, hkept⟩ := hkeep _ _ (.of_stack? hi ht') hopen'
      -- the scope was open at the place of the local only, so this is the stack that had it
      obtain rfl : t = x.place.thread := congrArg Place.thread
        (hs₁.place_unique hn hstack ((hs₁.stack hstack).isOpen_of_get hget) hstack₁
          (hkept.isOpen hopen'))
      rw [hid] at hstack₁
      obtain rfl := hstack.unique hx.wellFormed hs₁.owners hstack₁
      rw [if_pos ⟨rfl, (isOpen_of_mem hw hi hid _).trans hopen⟩,
        Isolate.getLocal_of_stack? ha hl ht', hkept.get hopen' _ _ hget]
      rfl
  · have hl : x.handle.isolate ≠ iso.id := fun he => hid (he.symm.trans hx.owner)
    rw [if_pos hid, Isolate.getLocal_of_ne ha hl, hx.owner]

/-- **Locals are never aliased,** in any run that opens no more scopes than there are ids.
After an act has answered a local, and whatever else has happened since, a thread that may
touch an isolate and presents the local there gets the object it was answered for if the
isolate is that of the local, the thread is the one it was answered to and its scope is
still open; it is told that the local is stale on the same isolate otherwise, and that it
belongs to another isolate elsewhere.  The scope is open when the local is answered, once it
is not open it is not opened again, and to close it, or to let a local escape from it, ends
it; every escape that succeeds answers a local for an object. -/
theorem run_locals {before later : List Act} {a : Act} {x : Issued}
    (hopened : ({} : World).opened (before ++ a :: later) ≤ 2 ^ 64)
    (hissued : (({} : World).run before).issued? a = some x) :
    let issued := ({} : World).run (before ++ [a])
    let w := issued.run later
    x.handle.isolate = x.place.isolate ∧
    (∀ iso ∈ w.isolates, ∀ t, iso.registry.contains t = true →
      (iso.lock.lockingMode = true → iso.lock.isHeldBy t = true) →
      (iso.getLocal t x.handle w.shared).1
        = if iso.id ≠ x.place.isolate then .error (.usage (.wrongIsolate x.place.isolate iso.id))
          else if t = x.place.thread ∧ w.isOpen x.place x.handle.scope = true then .ok x.object
          else .error (.usage (.staleLocal x.handle.scope))) ∧
    ((issued.isolate? x.place.isolate).isSome = true →
      issued.isOpen x.place x.handle.scope = true) ∧
    (∀ mid rest, later = mid ++ rest → w.isOpen x.place x.handle.scope = true →
      (issued.run mid).isOpen x.place x.handle.scope = true) ∧
    ∀ iso ∈ w.isolates, ∀ t scope,
      ((iso.closeScope t scope w.shared).1 = .ok () →
        (iso.closeScope t scope w.shared).2.1.isOpen t scope = false) ∧
      ∀ l l', (iso.escape t scope l w.shared).1 = .ok l' →
        (iso.escape t scope l w.shared).2.1.isOpen t scope = false ∧
        ∃ o, iso.issued? t w.shared (.escape scope l) = some (l', o) := by
  intro issued w
  have hrun : issued = (({} : World).run before).act a := List.foldl_append
  have hsplit : ({} : World).opened (before ++ a :: later)
      = ({} : World).opened before
        + ((({} : World).run before).opened [a] + issued.opened later) := by
    rw [opened_append, hrun]
    exact congrArg _ (opened_append _ [a] later)
  obtain ⟨homes, hlen, hs₀, -⟩ := housed_init.run before (by
    rw [List.length_nil]
    omega)
  rw [List.length_nil, Nat.zero_add] at hlen
  have hw₀ := wellFormed_init.run before
  obtain ⟨w₁, hx, hdrops⟩ := hs₀.issued hw₀ hissued
  have hs₁ := hs₀.evolves hx.evolves
  obtain ⟨stack, hstack, hget⟩ := hx.denotes
  have hopen := (hs₁.stack hstack).isOpen_of_get hget
  obtain ⟨k, hk, hscope⟩ := (hs₁.stack hstack).exists_home hopen
  have hk := (List.getElem?_eq_some_iff.1 hk).1
  rw [← hrun] at hdrops
  have hs₂ := hs₁.evolves hdrops.evolves
  have hw₂ : issued.WellFormed := wellFormed_init.run _
  have hw : w.WellFormed := hw₂.run later
  obtain ⟨homes', -, hs, hkeep⟩ := hs₂.run later (by omega)
  have hkeep₁ : Keeps x.handle.scope w₁ w := by
    rw [hscope]
    exact (hs₁.keeps_of_evolves hdrops.evolves _).trans (hkeep k hk)
  refine ⟨hx.owner, fun iso hi t hin hlock => ?_, fun hsome => ?_, fun mid rest hmid hlate => ?_,
    fun iso hi t scope => ⟨fun h => ?_, fun l l' h => ?_⟩⟩
  · exact hx.getLocal hs₁ (by omega) hkeep₁ hs hw hi (iso.accessFault?_eq_none hin hlock)
  · obtain ⟨iso, hi⟩ := Option.isSome_iff_exists.1 hsome
    obtain ⟨hmem, hid⟩ := mem_of_isolate? hi
    have ht := hstack.stack?_eq hx.wellFormed hs₁.owners (hdrops.isolates iso hmem) hid
    rw [isOpen_of_mem hw₂ hmem hid, Isolate.isOpen_of_stack? ht, hopen]
  · subst hmid
    rw [hscope] at hlate ⊢
    exact hs₂.isOpen_of_run hw₂ hk mid rest (by omega) hlate
  · exact iso.isOpen_closeScope (hs.of_stack? hi) (hs.owners iso hi) h
  · have hstacks := hs.of_stack? hi (t := t)
    exact ⟨iso.isOpen_escape hstacks h, iso.exists_issued_of_escape hstacks h⟩

/-- A local is stale after its slot has been issued again, to a scope that was opened when
its own was closed. -/
theorem run_locals_slotReissued :
    let before : List Act :=
      [.make ⟨.unit, []⟩, .make ⟨.unit, []⟩, .newIsolate {}, .enter ⟨0⟩ ⟨1⟩,
        .request ⟨0⟩ ⟨1⟩ .openScope, .request ⟨0⟩ ⟨1⟩ .openScope]
    let made : Act := .request ⟨0⟩ ⟨1⟩ (.addLocal none ⟨0⟩)
    let later : List Act :=
      [.request ⟨0⟩ ⟨1⟩ (.closeScope ⟨2⟩), .request ⟨0⟩ ⟨1⟩ .openScope,
        .request ⟨0⟩ ⟨1⟩ (.addLocal none ⟨1⟩)]
    let x : Issued := ⟨⟨⟨1⟩, ⟨0⟩⟩, ⟨⟨1⟩, ⟨2⟩, .ofCounts 0 0⟩, ⟨0⟩⟩
    let w := (({} : World).run (before ++ [made])).run later
    ({} : World).opened (before ++ made :: later) ≤ 2 ^ 64 ∧
      (({} : World).run before).issued? made = some x ∧
      ∃ iso ∈ w.isolates,
        (iso.getLocal ⟨0⟩ x.handle w.shared).1 = .error (.usage (.staleLocal ⟨2⟩)) ∧
        (iso.getLocal ⟨0⟩ { x.handle with scope := ⟨3⟩ } w.shared).1 = .ok ⟨1⟩ := by
  intro before made later x w
  have hopened : ({} : World).opened (before ++ made :: later) ≤ 2 ^ 64 := by decide +kernel
  have hissued : (({} : World).run before).issued? made = some x := by decide +kernel
  have hnow : (w.isolate? ⟨1⟩).map (fun iso => (iso.registry.contains ⟨0⟩, iso.lock.lockingMode,
      (iso.getLocal ⟨0⟩ { x.handle with scope := ⟨3⟩ } w.shared).1))
      = some (true, false, .ok ⟨1⟩) := by
    decide +kernel
  have hclosed : ¬ w.isOpen x.place x.handle.scope = true := by decide +kernel
  obtain ⟨iso, hi, hnow⟩ := Option.map_eq_some_iff.1 hnow
  obtain ⟨hmem, hid⟩ := mem_of_isolate? hi
  obtain ⟨hin, hnow⟩ := Prod.mk.inj hnow
  obtain ⟨hmode, hother⟩ := Prod.mk.inj hnow
  have hread := (run_locals hopened hissued).2.1 iso hmem ⟨0⟩ hin fun h => by
    rw [hmode] at h
    cases h
  rw [if_neg (not_not_intro hid), if_neg fun h => hclosed h.2] at hread
  exact ⟨hopened, hissued, iso, hmem, hread, hother⟩

end World
end EngineHandles
