/-
# Thread entry

A running thread's enters refine a list, the oldest first: an enter appends its isolate, and
an exit takes the last occurrence of its isolate out.  The list that the thread keeps is this
one, and the registry of every isolate says what can be read off it (`World.Inside`), so an
exit succeeds just if the isolate occurs in the list (`World.run_enters`).

The invariant is kept by an enter (`Inside.enter?`) and by an exit (`Inside.exit?`), in which
only the isolate that moves into the gap may have to be linked anew (`Leaving.inside`,
`Leaving.relink`); whatever else happens leaves the thread where it is.
-/

import EngineHandles.Proofs.World.Aside

namespace EngineHandles
namespace World

variable {w w' : World} {t u : ThreadKey} {i j : IsolateId} {iso : Isolate}
  {l p q : List IsolateId}

/-! ### Leaving an isolate -/

/-- An exit of an isolate whose registry knows of the thread. -/
theorem exit?_eq_ok (w : World) (hi : w.isolate? i = some iso)
    (hsome : (iso.registry.exit t).1.isSome = true) :
    w.exit? t i = some (.ok (),
      ((w.put ({ iso with registry := (iso.registry.exit t).2 }, w.shared)).removeEnter t i).reap
        i) := by
  obtain ⟨o, ho⟩ := Option.isSome_iff_exists.1 hsome
  have hexit : iso.exit t w.shared
      = (.ok (), { iso with registry := (iso.registry.exit t).2 }, w.shared) := by
    unfold Isolate.exit
    generalize iso.registry.exit t = r at ho
    obtain ⟨r, reg⟩ := r
    cases ho
    rfl
  rw [exit?, perform?, hi]
  dsimp only
  rw [hexit]
  rfl

/-- An exit of an isolate whose registry does not know of the thread. -/
theorem exit?_eq_error (w : World) (hi : w.isolate? i = some iso)
    (hnone : iso.registry.get? t = none) :
    w.exit? t i = some (.error (.usage (.notEntered i)),
      w.put (iso.fail .exit (.usage (.notEntered i)) w.shared)) := by
  have hexit : iso.exit t w.shared
      = (.error (.usage (.notEntered iso.id)),
          iso.fail .exit (.usage (.notEntered iso.id)) w.shared) := by
    rw [Isolate.exit, Registry.exit_of_get?_eq_none hnone]
  obtain ⟨-, rfl⟩ := mem_of_isolate? hi
  rw [exit?, perform?, hi]
  dsimp only
  rw [hexit]
  rfl

theorem splitAtFirst?_split (hq : i ∉ q) (p : List IsolateId) :
    splitAtFirst? i (q ++ i :: p) = some (q, p) := by
  induction q with
  | nil => rw [List.nil_append, splitAtFirst?, if_pos rfl]
  | cons j q ih =>
    have hj : j ≠ i := fun h => hq (h ▸ List.mem_cons_self)
    have hq : i ∉ q := fun h => hq (List.mem_cons_of_mem j h)
    rw [List.cons_append, splitAtFirst?, if_neg hj, ih hq, Option.map_some]

theorem isolate?_relink (w : World) (t : ThreadKey) (i : IsolateId) (previous : Option IsolateId)
    (j : IsolateId) :
    (w.relink t i previous).isolate? j = (w.isolate? j).map fun iso =>
      if j = i then { iso with registry := (iso.registry.relink t previous).2 } else iso := by
  cases hi : w.isolate? i with
  | none =>
    have hsame : ∀ iso, w.isolate? j = some iso → j ≠ i := by
      rintro iso hj rfl
      rw [hi] at hj
      cases hj
    rw [relink, hi]
    cases hj : w.isolate? j with
    | none => rfl
    | some iso => rw [Option.map_some, if_neg (hsame iso hj)]
  | some iso =>
    obtain ⟨-, rfl⟩ := mem_of_isolate? hi
    have hset := w.isolate?_setIsolate
      { iso with registry := (iso.registry.relink t previous).2 } j
    rw [relink, hi]
    refine hset.trans ?_
    by_cases hj : j = iso.id
    · simp [hj, hi]
    · simp [hj]

theorem enters_relink (w : World) (t : ThreadKey) (i : IsolateId) (previous : Option IsolateId)
    (u : ThreadKey) : (w.relink t i previous).enters u = w.enters u := by
  unfold relink
  split <;> rfl

/-! ### The list of a thread -/

/-- What an act makes of the list of a thread: an enter appends its isolate, and an exit that
succeeds takes the last occurrence out. -/
def entryStep (w : World) (t : ThreadKey) (l : List IsolateId) (a : Act) : List IsolateId :=
  match w.entryCall? t a with
  | none => l
  | some (.enter i) => if (w.enter? t i).isSome then l ++ [i] else l
  | some (.exit i) =>
    match w.exit? t i with
    | some (.ok (), _) => removeLast i l
    | _ => l

/-- The list of a thread after a run. -/
def entryList (w : World) (t : ThreadKey) (l : List IsolateId) : List Act → List IsolateId
  | [] => l
  | a :: rest => (w.act a).entryList t (w.entryStep t l a) rest

/-- A thread whose list is `l`: its enters are those of the list, the isolates in it are
there, and all registries say what the list says. -/
structure Inside (t : ThreadKey) (l : List IsolateId) (w : World) : Prop where
  enters_eq : w.enters t = l.reverse
  found : ∀ i ∈ l, (w.isolate? i).isSome = true
  lists : ∀ {i iso}, w.isolate? i = some iso → iso.registry.Lists t l i

namespace Inside

theorem mem_enters (h : Inside t l w) : i ∈ w.enters t ↔ i ∈ l := by
  rw [h.enters_eq, List.mem_reverse]

/-- A thread that stays where it is keeps its list. -/
theorem aside (h : Inside t l w) (ha : Aside t w w') : Inside t l w' := by
  refine ⟨ha.enters_eq.trans h.enters_eq, fun i hi => ?_, fun hi => ?_⟩
  · exact ha.stays i (h.mem_enters.2 hi) (h.found i hi)
  · obtain ⟨iso, hi, hget⟩ := ha.origin hi
    rw [Registry.Lists, hget]
    exact h.lists hi

theorem current?_eq (h : Inside t l w) : w.current? t = l.getLast? := by
  rw [current?, h.enters_eq, List.head?_reverse]

/-- A new isolate is in no thread's list, and knows of no thread. -/
theorem newIsolate (h : Inside t l w) (c : IsolateConfig) : Inside t l (w.newIsolate c).2 := by
  rcases w.newIsolate_cases c with hn | ⟨iso, hc, hn⟩
  · rw [hn]
    exact h
  · have hfind : ∀ i, (w.newIsolate c).2.isolate? i
        = (w.isolate? i).or (([iso] : List Isolate).find? fun x => x.id == i) := by
      intro i
      rw [hn]
      exact List.find?_append
    have henters : (w.newIsolate c).2.enters t = w.enters t := by
      rw [hn]
      rfl
    refine ⟨henters.trans h.enters_eq, fun i hi => ?_, fun {i x} hi => ?_⟩
    · rw [hfind, Option.isSome_or, h.found i hi, Bool.true_or]
    · rw [hfind] at hi
      cases hold : w.isolate? i with
      | some y =>
        rw [hold] at hi
        cases hi
        exact h.lists hold
      | none =>
        rw [hold, Option.none_or] at hi
        obtain rfl := List.mem_singleton.1 (List.mem_of_find?_eq_some hi)
        have hout : i ∉ l := by
          intro hmem
          have hsome := h.found i hmem
          rw [hold] at hsome
          cases hsome
        rw [Registry.Lists, Isolate.registry_of_ofConfig? hc, listed_of_not_mem hout]
        rfl

/-- **An enter** that can be made appends its isolate. -/
theorem enter? (h : Inside t l w) (hl : l.length + 1 < 2 ^ 32) {n : UInt32}
    (he : w.enter? t i = some (n, w')) : Inside t (l ++ [i]) w' := by
  unfold World.enter? at he
  split at he
  · cases he
  · next count w₁ hp =>
    cases he
    obtain ⟨iso, hi, -, rfl⟩ := perform?_eq_some_iff.1 hp
    have hfind : ∀ j, World.isolate? ((w.put (iso.enter t (w.current? t) w.shared).2).setEnters t
        (i :: w.enters t)) j = _ := w.isolate?_setIsolate (iso.enter t (w.current? t) w.shared).2.1
    obtain ⟨-, rfl⟩ := mem_of_isolate? hi
    refine ⟨?_, fun j hj => ?_, fun {j x} hj => ?_⟩
    · rw [enters_setEnters, if_pos rfl, h.enters_eq, List.reverse_append]
      rfl
    · rw [hfind, Option.isSome_map]
      rcases List.mem_append.1 hj with hj | hj
      · exact h.found j hj
      · obtain rfl := List.mem_singleton.1 hj
        rw [hi]
        rfl
    · rw [hfind] at hj
      obtain ⟨y, hy, rfl⟩ := Option.map_eq_some_iff.1 hj
      split
      · next hji =>
        obtain rfl : j = iso.id := hji
        have hcount : l.count iso.id + 1 < 2 ^ 32 := by
          have := List.count_le_length (a := iso.id) (l := l)
          omega
        have henter := (h.lists hi).enter hcount
        rw [← h.current?_eq] at henter
        exact henter
      · next hne =>
        have hne : j ≠ iso.id := hne
        rw [Registry.Lists, listed_concat_of_ne l hne]
        exact h.lists hy

end Inside

/-- A thread on its way out of `i`, whose last occurrence stood between `p` and `q`: the
registry of `i` forgot the enter and the thread's list lost it, but all links are as before. -/
structure Leaving (t : ThreadKey) (p : List IsolateId) (i : IsolateId) (q : List IsolateId)
    (w : World) : Prop where
  last : i ∉ q
  enters_eq : w.enters t = (p ++ q).reverse
  found : ∀ j ∈ p ++ q, (w.isolate? j).isSome = true
  left : ∀ {iso}, w.isolate? i = some iso → iso.registry.Lists t (p ++ q) i
  others : ∀ {j iso}, j ≠ i → w.isolate? j = some iso → iso.registry.Lists t (p ++ i :: q) j

namespace Leaving

/-- If nothing moved into the gap, or something that stands further below as well, no link
has to change. -/
theorem inside (h : Leaving t p i q w) (hgap : ∀ j, q.head? = some j → j ∈ p) :
    Inside t (p ++ q) w := by
  refine ⟨h.enters_eq, h.found, fun {j x} hj => ?_⟩
  by_cases hji : j = i
  · subst hji
    exact h.left hj
  · rw [Registry.Lists, listed_remove hji (hgap j)]
    exact h.others hji hj

/-- If something moved into the gap that does not stand further below, its link changes. -/
theorem relink (h : Leaving t p i (j :: q) w) (hj : j ∉ p) :
    Inside t (p ++ j :: q) (w.relink t j p.getLast?) := by
  have hji : j ≠ i := fun he => h.last (he ▸ List.mem_cons_self)
  have hfind := w.isolate?_relink t j p.getLast?
  refine ⟨(w.enters_relink t j _ t).trans h.enters_eq, fun k hk => ?_, fun {k x} hk => ?_⟩
  · rw [hfind, Option.isSome_map]
    exact h.found k hk
  · rw [hfind] at hk
    obtain ⟨y, hy, rfl⟩ := Option.map_eq_some_iff.1 hk
    by_cases hki : k = i
    · subst hki
      rw [if_neg hji.symm]
      exact h.left hy
    · have hold := h.others hki hy
      by_cases hkj : k = j
      · subst hkj
        rw [if_pos rfl]
        exact hold.relink hki hj
      · have hgap : (j :: q).head? ≠ some k := fun he => hkj (Option.some.inj he).symm
        rw [if_neg hkj, Registry.Lists, listed_remove hki fun he => absurd he hgap]
        exact hold

end Leaving

/-- What is left to do when a thread leaves. -/
theorem removeEnter_split (w : World) (henters : w.enters t = (p ++ i :: q).reverse)
    (hq : i ∉ q) :
    w.removeEnter t i
      = match q.head? with
        | none => w.setEnters t (p ++ q).reverse
        | some j =>
          if j ∈ p then w.setEnters t (p ++ q).reverse
          else (w.setEnters t (p ++ q).reverse).relink t j p.getLast? := by
  have hq' : i ∉ q.reverse := fun h => hq (List.mem_reverse.1 h)
  have hrev : (p ++ i :: q).reverse = q.reverse ++ i :: p.reverse := by simp
  rw [removeEnter, henters, hrev, splitAtFirst?_split hq', List.reverse_append]
  dsimp only
  rw [List.getLast?_reverse, List.head?_reverse]
  cases q.head? with
  | none => rfl
  | some j =>
    dsimp only
    refine if_congr ?_ rfl rfl
    rw [List.contains_iff_mem, List.mem_reverse]

theorem Leaving.removeEnter (henters : w.enters t = (p ++ i :: q).reverse)
    (h : Leaving t p i q (w.setEnters t (p ++ q).reverse)) :
    Inside t (p ++ q) (w.removeEnter t i) := by
  rw [w.removeEnter_split henters h.last]
  cases q with
  | nil => exact h.inside nofun
  | cons j q =>
    rw [List.head?_cons]
    dsimp only
    split
    · next hj =>
      refine h.inside fun k hk => ?_
      obtain rfl := Option.some.inj hk
      exact hj
    · next hj => exact h.relink hj

namespace Inside

/-- **An exit** of an isolate that is in the list takes its last occurrence out. -/
theorem exit?_of_mem (h : Inside t l w) (hi : i ∈ l) :
    ∃ w', w.exit? t i = some (.ok (), w') ∧ Inside t (removeLast i l) w' := by
  obtain ⟨p, q, rfl, hq⟩ := exists_split_last hi
  obtain ⟨iso, hiso⟩ := Option.isSome_iff_exists.1 (h.found i hi)
  obtain ⟨hsome, hleft⟩ := (h.lists hiso).exit hq
  refine ⟨_, w.exit?_eq_ok hiso hsome, Inside.aside ?_ (.reap t _ i)⟩
  obtain ⟨-, rfl⟩ := mem_of_isolate? hiso
  rw [removeLast_split hq]
  refine Leaving.removeEnter h.enters_eq ?_
  have hfind : ∀ j, World.isolate? ((w.put ({ iso with registry := (iso.registry.exit t).2 },
      w.shared)).setEnters t (p ++ q).reverse) j = _ :=
    w.isolate?_setIsolate { iso with registry := (iso.registry.exit t).2 }
  refine ⟨hq, ?_, fun j hj => ?_, fun {x} hx => ?_, fun {j x} hji hx => ?_⟩
  · rw [enters_setEnters, if_pos rfl]
  · rw [hfind, Option.isSome_map]
    refine h.found j ?_
    rcases List.mem_append.1 hj with hj | hj
    · exact List.mem_append_left _ hj
    · exact List.mem_append_right _ (List.mem_cons_of_mem _ hj)
  · rw [hfind, hiso, Option.map_some, if_pos rfl] at hx
    cases hx
    exact hleft
  · rw [hfind] at hx
    obtain ⟨y, hy, rfl⟩ := Option.map_eq_some_iff.1 hx
    rw [if_neg hji]
    exact h.lists hy

/-- **An exit** of an isolate that is not in the list is refused, and changes no thread's
enters and no registry. -/
theorem exit?_of_not_mem (h : Inside t l w) (hiso : w.isolate? i = some iso) (hi : i ∉ l) :
    ∃ w', w.exit? t i = some (.error (.usage (.notEntered i)), w') ∧ w'.entered = w.entered ∧
      ∀ j, (w'.isolate? j).map Isolate.registry = (w.isolate? j).map Isolate.registry := by
  refine ⟨_, w.exit?_eq_error hiso ((h.lists hiso).of_not_mem hi), rfl, fun j => ?_⟩
  obtain ⟨-, rfl⟩ := mem_of_isolate? hiso
  refine (congrArg _ (w.isolate?_setIsolate _ j)).trans ?_
  rw [Option.map_map]
  cases hj : w.isolate? j with
  | none => rfl
  | some x =>
    rw [Option.map_some, Option.map_some]
    by_cases hji : j = iso.id
    · rw [hji, hiso] at hj
      cases hj
      simp [hji, Isolate.fail]
    · simp [hji, Isolate.fail]

/-- What an exit makes of the list. -/
theorem exit? (h : Inside t l w) {r : Except HandleError Unit} (he : w.exit? t i = some (r, w')) :
    Inside t (match r with | .ok () => removeLast i l | .error _ => l) w' := by
  by_cases hi : i ∈ l
  · obtain ⟨w₁, hok, hin⟩ := h.exit?_of_mem hi
    rw [he] at hok
    cases hok
    exact hin
  · cases hiso : w.isolate? i with
    | none =>
      rw [World.exit?, perform?, hiso] at he
      cases he
    | some iso =>
      obtain ⟨w₁, herror, hentered, hreg⟩ := h.exit?_of_not_mem hiso hi
      rw [he] at herror
      cases herror
      exact h.aside (.of_registries_eq t hentered hreg)

end Inside

/-! ### Runs -/

namespace Inside

/-- A call of enter, by itself or under a guard. -/
theorem act_enter (h : Inside t l w) {a : Act} (ha : a = .enter t i ∨ a = .enterGuarded t i)
    (hfew : (if (w.enter? t i).isSome then l ++ [i] else l).length < 2 ^ 32) :
    Inside t (if (w.enter? t i).isSome then l ++ [i] else l) (w.act a) := by
  cases he : w.enter? t i with
  | none =>
    have hact : w.act a = w := by
      rcases ha with rfl | rfl
      · rw [World.act, he]
        rfl
      · rw [World.act, enterGuarded?, he]
        rfl
    rw [hact]
    exact h
  | some r =>
    obtain ⟨n, w'⟩ := r
    rw [he] at hfew
    have hl : l.length + 1 < 2 ^ 32 := by
      simpa using hfew
    have hin := h.enter? hl he
    rcases ha with rfl | rfl
    · rw [World.act, he]
      exact hin
    · rw [World.act, enterGuarded?, he]
      exact hin.aside (.works (P := fun _ => False) (.addGuard w' t i .entered) id)

/-- A call of exit, by itself or through a guard. -/
theorem act_exit (h : Inside t l w) {a : Act}
    (ha : a = .exit t i ∨ ∃ g x, a = .dropGuard g ∧ w.guard? g = some x ∧ x.thread = t ∧
      x.isolate = i ∧ x.kind = .entered) :
    Inside t (match w.exit? t i with | some (.ok (), _) => removeLast i l | _ => l)
      (w.act a) := by
  cases he : w.exit? t i with
  | none =>
    have hact : w.act a = w := by
      rcases ha with rfl | ⟨g, x, rfl, hx, rfl, rfl, hk⟩
      · rw [World.act, he]
        rfl
      · rw [World.act, hx, Option.bind_some, dropGuard?, undo?, hk]
        dsimp only
        rw [he]
        rfl
    rw [hact]
    exact h
  | some r =>
    obtain ⟨r, w'⟩ := r
    have hin := h.exit? he
    have hact : Aside t w' (w.act a) := by
      rcases ha with rfl | ⟨g, x, rfl, hx, rfl, rfl, hk⟩
      · rw [World.act, he]
        exact .refl t w'
      · rw [World.act, hx, Option.bind_some, dropGuard?, undo?, hk]
        dsimp only
        rw [he]
        exact .works (P := fun _ => False) (.removeGuard w' x) id
    cases r <;> exact hin.aside hact

/-- **Every act** does to the enters of a running thread what it does to its list. -/
theorem act (h : Inside t l w) {a : Act} (hend : a ≠ .endThread t)
    (hfew : (w.entryStep t l a).length < 2 ^ 32) : Inside t (w.entryStep t l a) (w.act a) := by
  unfold entryStep at hfew ⊢
  cases hcall : w.entryCall? t a with
  | none =>
    by_cases hnew : ∃ c, a = .newIsolate c
    · obtain ⟨c, rfl⟩ := hnew
      exact h.newIsolate c
    · refine h.aside (.act ?_ fun c hc => hnew ⟨c, hc⟩)
      rintro (hsome | ha)
      · rw [hcall] at hsome
        cases hsome
      · exact hend ha
  | some c =>
    rw [hcall] at hfew
    cases c with
    | enter i => exact h.act_enter (entryCall?_eq_enter hcall) hfew
    | exit i => exact h.act_exit (entryCall?_eq_exit hcall)

theorem init (t : ThreadKey) : Inside t [] {} := ⟨rfl, nofun, nofun⟩

/-- **Every run** does to the enters of a running thread what it does to its list, as long as
fewer than `2 ^ 32` enters are outstanding. -/
theorem run (h : Inside t l w) (acts : List Act) (hend : .endThread t ∉ acts)
    (hfew : ∀ before, before <+: acts → (w.entryList t l before).length < 2 ^ 32) :
    Inside t (w.entryList t l acts) (w.run acts) := by
  induction acts generalizing w l with
  | nil => exact h
  | cons a rest ih =>
    obtain ⟨ha, hrest⟩ := not_or.1 (List.mem_cons.not.1 hend)
    have hstep : (w.entryStep t l a).length < 2 ^ 32 := hfew [a] ⟨rest, rfl⟩
    refine ih (h.act (fun he => ha he.symm) hstep) hrest fun before hbefore => ?_
    exact hfew (a :: before) (List.cons_prefix_cons.2 ⟨rfl, hbefore⟩)

end Inside

/-- No act adds more than one enter. -/
theorem length_entryStep_le (w : World) (t : ThreadKey) (l : List IsolateId) (a : Act) :
    (w.entryStep t l a).length ≤ l.length + 1 := by
  have hremove : ∀ i, (removeLast i l).length ≤ l.length := by
    intro i
    have hle : (l.reverse.erase i).length ≤ l.reverse.length := List.length_erase_le
    rw [List.length_reverse] at hle
    rw [removeLast, List.length_reverse]
    exact hle
  unfold entryStep
  split
  · exact Nat.le_succ _
  · split <;> simp
  · next i _ =>
    have := hremove i
    split <;> omega

theorem length_entryList_le (w : World) (t : ThreadKey) (l : List IsolateId) (acts : List Act) :
    (w.entryList t l acts).length ≤ l.length + acts.length := by
  induction acts generalizing w l with
  | nil => exact Nat.le_refl _
  | cons a rest ih =>
    have hrest := ih (w.act a) (w.entryStep t l a)
    have hstep := w.length_entryStep_le t l a
    rw [entryList, List.length_cons]
    omega

/-- **Thread entry is a list.**  In every state that a run reaches, of any acts by any threads
on any isolates, let `l` be the list of a thread that did not end and never had `2 ^ 32`
enters outstanding: each of its enters appended the isolate, and each of its exits that
succeeded took the last occurrence out.  Then the thread keeps just this list, and its last
element is its current isolate; every isolate counts its occurrences in it, and its entry
for the thread names what is just below the first one.  An exit succeeds if the isolate is in
the list, which it leaves without the last occurrence; otherwise it is refused, and changes
no thread's enters and no registry.  And the calls of the thread leave all other threads where
they are. -/
theorem run_enters {acts : List Act} {t : ThreadKey} (hend : .endThread t ∉ acts)
    (hfew : ∀ before, before <+: acts → (({} : World).entryList t [] before).length < 2 ^ 32) :
    let w := ({} : World).run acts
    let l := ({} : World).entryList t [] acts
    w.enters t = l.reverse ∧
    w.current? t = l.getLast? ∧
    (∀ i ∈ l, (w.isolate? i).isSome = true) ∧
    (∀ i iso, w.isolate? i = some iso → (iso.registry.count t).toNat = l.count i ∧
      (iso.registry.get? t).map RegistryEntry.previous
        = if i ∈ l then some ((l.takeWhile fun j => j ≠ i).getLast?) else none) ∧
    (∀ i iso, w.isolate? i = some iso →
      if i ∈ l then
        ∃ w', w.exit? t i = some (.ok (), w') ∧ w'.enters t = (removeLast i l).reverse
      else
        ∃ w', w.exit? t i = some (.error (.usage (.notEntered i)), w') ∧ w'.entered = w.entered ∧
          ∀ j, (w'.isolate? j).map Isolate.registry = (w.isolate? j).map Isolate.registry) ∧
    ∀ a u, (w.entryCall? t a).isSome = true → u ≠ t →
      (w.act a).enters u = w.enters u ∧
      (∀ i ∈ w.enters u, (w.isolate? i).isSome = true → ((w.act a).isolate? i).isSome = true) ∧
      ∀ i iso', (w.act a).isolate? i = some iso' → ∃ iso, w.isolate? i = some iso ∧
        iso'.registry.get? u = iso.registry.get? u := by
  intro w l
  have h : Inside t l w := (Inside.init t).run acts hend hfew
  refine ⟨h.enters_eq, h.current?_eq, h.found, fun i iso hi => ⟨(h.lists hi).count_eq, ?_⟩,
    fun i iso hi => ?_, fun a u ha hu => ?_⟩
  · split
    · next hmem =>
      obtain ⟨e, he, -, hprev⟩ := (h.lists hi).of_mem hmem
      rw [he, Option.map_some, hprev, below]
    · next hmem =>
      rw [(h.lists hi).of_not_mem hmem, Option.map_none]
  · split
    · next hmem =>
      obtain ⟨w', hok, hin⟩ := h.exit?_of_mem hmem
      exact ⟨w', hok, hin.enters_eq⟩
    · next hmem => exact h.exit?_of_not_mem hi hmem
  · have haside := aside_of_entryCall? ha hu
    exact ⟨haside.enters_eq, haside.stays, fun i iso' hi => haside.origin hi⟩

/-- A thread enters four isolates and the second one again, and leaves the second one twice and
the third one: what is left are the first and the last, the one just above the other. -/
def interleaved : List Act :=
  [.newIsolate {}, .newIsolate {}, .newIsolate {}, .newIsolate {},
    .enter ⟨0⟩ ⟨1⟩, .enter ⟨0⟩ ⟨2⟩, .enterGuarded ⟨0⟩ ⟨3⟩, .enter ⟨1⟩ ⟨2⟩, .enter ⟨0⟩ ⟨2⟩,
    .enter ⟨0⟩ ⟨4⟩, .exit ⟨0⟩ ⟨2⟩, .exit ⟨0⟩ ⟨2⟩, .exit ⟨0⟩ ⟨2⟩, .dropGuard ⟨1⟩]

/-- After exits in another order than that of the enters, one of them refused, the last isolate
is linked to the first. -/
theorem run_enters_interleaved :
    let w := ({} : World).run interleaved
    .endThread ⟨0⟩ ∉ interleaved ∧
    (∀ before, before <+: interleaved →
      (({} : World).entryList ⟨0⟩ [] before).length < 2 ^ 32) ∧
    ({} : World).entryList ⟨0⟩ [] interleaved = [⟨1⟩, ⟨4⟩] ∧
    w.current? ⟨0⟩ = some ⟨4⟩ ∧
    ∃ iso, w.isolate? ⟨4⟩ = some iso ∧ (iso.registry.count ⟨0⟩).toNat = 1 ∧
      (iso.registry.get? ⟨0⟩).map RegistryEntry.previous = some (some ⟨1⟩) := by
  intro w
  have hend : .endThread ⟨0⟩ ∉ interleaved := by simp [interleaved]
  have hfew : ∀ before, before <+: interleaved →
      (({} : World).entryList ⟨0⟩ [] before).length < 2 ^ 32 := by
    intro before hbefore
    have hle := ({} : World).length_entryList_le ⟨0⟩ [] before
    have hlen : before.length ≤ 14 := hbefore.length_le
    rw [List.length_nil] at hle
    omega
  have hlist : ({} : World).entryList ⟨0⟩ [] interleaved = [⟨1⟩, ⟨4⟩] := by decide +kernel
  obtain ⟨-, hcurrent, hfound, hentries, -⟩ := run_enters hend hfew
  rw [hlist] at hcurrent hfound hentries
  obtain ⟨iso, hi⟩ := Option.isSome_iff_exists.1 (hfound ⟨4⟩ (by decide))
  obtain ⟨hcount, hprevious⟩ := hentries ⟨4⟩ iso hi
  exact ⟨hend, hfew, hlist, hcurrent, iso, hi, hcount, hprevious⟩

end World
end EngineHandles
