/-
# Guards of scopes as brackets

Let a thread keep its access to an isolate and manage its scopes there by guards only, each of
which ends before any that was opened earlier (`World.Nests`).  While a guard is live, the scopes
of the newer guards lie above its own, and its own holds what came into it (`Nest`).  An act keeps
this unless it ends the guard, and so does a run (`World.Brackets.act`, `World.Brackets.run`).

When the guard ends, its scope is the innermost one.  So it is closed once, by whatever ends the
guard, its references are released but the one that an escape moves, and the scopes below are what
they were when the guard was opened (`World.run_guard_balances`).
-/

import EngineHandles.Proofs.World.Frames

namespace EngineHandles

/-- The objects of the references that came into a scope, in order. -/
def receivedBy (scope : ScopeId) (received : List (ScopeId × ObjectId)) : List ObjectId :=
  (received.filter fun r => r.1 == scope).map Prod.snd

theorem receivedBy_append (scope : ScopeId) (xs ys : List (ScopeId × ObjectId)) :
    receivedBy scope (xs ++ ys) = receivedBy scope xs ++ receivedBy scope ys := by
  rw [receivedBy, List.filter_append, List.map_append]
  rfl

/-! ### Guards and lists -/

/-- The guards of a thread's scopes, the newest first, and its open scopes, innermost first, while
a guard is live: the scopes of the newer guards lie above the scope of this one, and nothing else
does.  Below it are the guards and the scopes that there were before, and `R` is what is in it. -/
def Nest (g : GuardId) (scope : ScopeId) (older : List (GuardId × ScopeId)) (L : Levels)
    (R : List ObjectId) (guards : List (GuardId × ScopeId)) (M : Levels) : Prop :=
  ∃ newer above, guards = newer ++ (g, scope) :: older ∧ M = above ++ ⟨scope, R⟩ :: L ∧
    Levels.ids above = newer.map Prod.snd

namespace Nest

variable {g g' : GuardId} {scope s : ScopeId} {older guards : List (GuardId × ScopeId)}
  {L M below : Levels} {R : List ObjectId} {l : Level} {o : ObjectId}

theorem init : Nest g scope older L [] ((g, scope) :: older) (⟨scope, []⟩ :: L) :=
  ⟨[], [], rfl, rfl, rfl⟩

theorem mem_guards (h : Nest g scope older L R guards M) : (g, scope) ∈ guards := by
  obtain ⟨newer, above, rfl, -, -⟩ := h
  exact List.mem_append_right _ List.mem_cons_self

theorem mem_ids (h : Nest g scope older L R guards M) : scope ∈ M.ids := by
  obtain ⟨newer, above, -, rfl, -⟩ := h
  rw [Levels.ids_append]
  exact List.mem_append_right _ List.mem_cons_self

/-- A scope is opened under a guard. -/
theorem opens (h : Nest g scope older L R guards M) (g' : GuardId) (s : ScopeId) :
    Nest g scope older L R ((g', s) :: guards) (⟨s, []⟩ :: M) := by
  obtain ⟨newer, above, rfl, rfl, hids⟩ := h
  exact ⟨(g', s) :: newer, ⟨s, []⟩ :: above, rfl, rfl, by rw [Levels.ids_cons, hids, List.map_cons]⟩

/-- A reference comes into the innermost scope. -/
theorem adds (h : Nest g scope older L R guards (l :: below))
    (hnd : (Levels.ids (l :: below)).Nodup) (o : ObjectId) :
    Nest g scope older L (R ++ receivedBy scope [(l.id, o)]) guards
      (⟨l.id, l.objects ++ [o]⟩ :: below) := by
  obtain ⟨newer, above, rfl, hM, hids⟩ := h
  cases above with
  | nil =>
    obtain ⟨rfl, rfl⟩ := List.cons.inj hM
    exact ⟨newer, [], rfl, by simp [receivedBy], hids⟩
  | cons top above =>
    obtain ⟨rfl, rfl⟩ := List.cons.inj hM
    have hne : l.id ≠ scope := by
      rintro rfl
      have hmem : l.id ∈ Levels.ids (above ++ ⟨l.id, R⟩ :: L) := by
        rw [Levels.ids_append]
        exact List.mem_append_right _ List.mem_cons_self
      exact (List.nodup_cons.1 hnd).1 hmem
    exact ⟨newer, ⟨l.id, l.objects ++ [o]⟩ :: above, rfl, by simp [receivedBy, hne], hids⟩

/-- What comes into the innermost scope is in the guard's, or in one above. -/
theorem receives {received : List (ScopeId × ObjectId)} {M' : Levels}
    (h : Nest g scope older L R guards M) (hr : M.Receives received M') (hnd : M.ids.Nodup) :
    Nest g scope older L (R ++ receivedBy scope received) guards M' := by
  cases hr with
  | none =>
    rw [show receivedBy scope [] = [] from rfl, List.append_nil]
    exact h
  | one l below o => exact h.adds hnd o

/-- **The newest guard** is that of the innermost scope: it is this guard, or a newer one without
which the others are still nested. -/
theorem newest (h : Nest g scope older L R ((g', s) :: guards) M) : ∃ R' below,
    M = ⟨s, R'⟩ :: below ∧
      ((g' = g ∧ s = scope ∧ R' = R ∧ below = L) ∨ Nest g scope older L R guards below) := by
  obtain ⟨newer, above, hG, rfl, hids⟩ := h
  cases newer with
  | nil =>
    obtain ⟨hp, rfl⟩ := List.cons.inj hG
    cases hp
    obtain rfl := List.map_eq_nil_iff.1 hids
    exact ⟨R, L, rfl, .inl ⟨rfl, rfl, rfl, rfl⟩⟩
  | cons p newer =>
    obtain ⟨rfl, rfl⟩ := List.cons.inj hG
    cases above with
    | nil => cases hids
    | cons top above =>
      obtain ⟨id, objects⟩ := top
      rw [Levels.ids_cons, List.map_cons] at hids
      obtain ⟨rfl, htail⟩ := List.cons.inj hids
      exact ⟨objects, above ++ ⟨scope, R⟩ :: L, rfl, .inr ⟨newer, above, rfl, rfl, htail⟩⟩

end Nest

/-- Whether an act is a thread's own request to open a scope in an isolate, or names a scope to
close it or to escape from it. -/
def Act.managesScopes (t : ThreadKey) (i : IsolateId) : Act → Bool
  | .request u j r => u == t && j == i && r.managesScopes
  | _ => false

namespace World

variable {w : World} {t : ThreadKey} {i : IsolateId} {a b : Act} {g : GuardId} {scope : ScopeId}
  {older : List (GuardId × ScopeId)} {L : Levels} {R : List ObjectId} {ds : List Deed}

/-- **An act that keeps guards nested:** the thread has access, manages no scope but by guards, and
of its guards there only the newest may end. -/
structure Nests (t : ThreadKey) (i : IsolateId) (w : World) (a : Act) : Prop where
  access : w.HasAccess t i
  guarded : a.managesScopes t i = false
  newest : ∀ g ∈ a.ended?, g ∈ (w.scopeGuards t i).map Prod.fst →
    (w.scopeGuards t i).head?.map Prod.fst = some g

instance (t : ThreadKey) (i : IsolateId) (w : World) (a : Act) : Decidable (Nests t i w a) :=
  decidable_of_iff (w.HasAccess t i ∧ a.managesScopes t i = false ∧
      ∀ g ∈ a.ended?, g ∈ (w.scopeGuards t i).map Prod.fst →
        (w.scopeGuards t i).head?.map Prod.fst = some g)
    ⟨fun h => ⟨h.1, h.2.1, h.2.2⟩, fun h => ⟨h.access, h.guarded, h.newest⟩⟩

/-- Each act of a run is as it should be in the world that it meets. -/
def Along (P : World → Act → Prop) (w : World) : List Act → Prop
  | [] => True
  | a :: rest => P w a ∧ Along P (w.act a) rest

/-- Whether that is so can be computed. -/
instance decidableAlong {P : World → Act → Prop} [∀ w a, Decidable (P w a)] (w : World) :
    (acts : List Act) → Decidable (Along P w acts)
  | [] => .isTrue trivial
  | a :: rest =>
    have : Decidable (Along P (w.act a) rest) := decidableAlong (w.act a) rest
    inferInstanceAs (Decidable (P w a ∧ Along P (w.act a) rest))

theorem along_append {P : World → Act → Prop} {acts acts' : List Act} :
    Along P w (acts ++ acts') ↔ Along P w acts ∧ Along P (w.run acts) acts' := by
  induction acts generalizing w with
  | nil => simp [Along, run]
  | cons a rest ih => simp [Along, ih, run, and_assoc]

/-! ### What an act does to nested guards -/

/-- The newest guard, which an act ends. -/
theorem Nests.exists_newest (hb : Nests t i w b) (hend : b.ended? = some g)
    (hg : g ∈ (w.scopeGuards t i).map Prod.fst) :
    ∃ s rest, w.scopeGuards t i = (g, s) :: rest := by
  have hhead := hb.newest g hend hg
  cases hguards : w.scopeGuards t i with
  | nil =>
    rw [hguards] at hg
    cases hg
  | cons p rest =>
    rw [hguards] at hhead
    obtain rfl := Option.some.inj hhead
    exact ⟨p.2, rest, rfl⟩

/-- An act that neither opens a scope under a guard, nor adds a local, nor ends a guard of the
thread's scopes, does nothing with them. -/
theorem Nests.rests (hb : Nests t i w b) (hopen : b ≠ .openGuarded t i)
    (hadd : ∀ named o, b ≠ .request t i (.addLocal named o))
    (hend : ∀ g ∈ b.ended?, g ∉ (w.scopeGuards t i).map Prod.fst) :
    ∀ d ∈ w.deeds b, d.isAt t i = true → d.job.affectsScopes = false := by
  intro d hd hat
  rw [← Bool.not_eq_true]
  intro hjob
  rcases affects_cases hd hat hjob with rfl | ⟨r, rfl, hr⟩ | ⟨g, hg, hmem⟩
  · exact hopen rfl
  · have hr' : r.managesScopes = false := by
      have h := hb.guarded
      rwa [Act.managesScopes, beq_self_eq_true, beq_self_eq_true, Bool.and_self,
        Bool.true_and] at h
    cases r with
    | addLocal named o => exact hadd named o rfl
    | openScope | closeScope | escape => cases hr'
    | _ => cases hr
  · exact hend g hg hmem

/-- A guard is live in a world to which these deeds led: the guards of the thread's scopes are
nested above it, and its scope, which no deed closed, holds what the deeds brought there. -/
def Brackets (t : ThreadKey) (i : IsolateId) (g : GuardId) (scope : ScopeId)
    (older : List (GuardId × ScopeId)) (L : Levels) (ds : List Deed) (w : World) : Prop :=
  ∃ M closed received, w.Lays t i M ∧
    Nest g scope older L (receivedBy scope received) (w.scopeGuards t i) M ∧
    Deed.Dealt t i ds closed received ∧ scope ∉ closed

namespace Brackets

/-- Opening a scope under a guard. -/
theorem init (hw : w.Regular) (ha : w.HasAccess t i) (hL : w.Lays t i L) :
    w.openGuarded? t i
        = some (.ok (⟨w.nextGuard⟩, w.shared.nextScope), w.act (.openGuarded t i)) ∧
      Brackets t i ⟨w.nextGuard⟩ w.shared.nextScope (w.scopeGuards t i) L
        (w.deeds (.openGuarded t i)) (w.act (.openGuarded t i)) := by
  obtain ⟨iso, hi, hid, hready⟩ := hw.exists_ready ha hL
  obtain ⟨hopen, hfrees, hguards, hdealt⟩ := openGuarded_of_ready hi hid hready
  exact ⟨hopen, _, [], [], hfrees.lays, hguards ▸ .init, hdealt, List.not_mem_nil⟩

/-- A newer guard ends. -/
theorem ends (h : Brackets t i g scope older L ds w) (hw : w.Regular) (hb : Nests t i w b)
    {g' : GuardId} (hend : b.ended? = some g') (hmem : g' ∈ (w.scopeGuards t i).map Prod.fst)
    (hne : g' ≠ g) : Brackets t i g scope older L (ds ++ w.deeds b) (w.act b) := by
  obtain ⟨M, closed, received, hM, hnest, hdealt, hopen⟩ := h
  obtain ⟨iso, -, -, hready⟩ := hw.exists_ready hb.access hM
  obtain ⟨s, rest, hguards⟩ := hb.exists_newest hend hmem
  rw [hguards] at hnest
  obtain ⟨R, below, rfl, ⟨rfl, -⟩ | hbelow⟩ := hnest.newest
  · exact absurd rfl hne
  obtain ⟨hfresh, hnd⟩ := List.nodup_cons.1 hready.nodup
  obtain ⟨received', hends, hdealt', hused⟩ :=
    hw.ends hb.access hM (hguards ▸ List.mem_cons_self) hend
  obtain ⟨M', hreceives, hM'⟩ := hends.exists_lays
  have hrest : (w.act b).scopeGuards t i = rest := by
    have hnames := hw.attended.nodup_scopeGuards t i
    rw [scopeGuards_filter hused, hguards, List.filter_cons_of_neg (by simp)]
    rw [hguards] at hnames
    refine List.filter_eq_self.2 fun p hp => bne_iff_ne.2 fun he => ?_
    have hp' : p.1 ∈ rest.map Prod.fst := List.mem_map_of_mem hp
    exact (List.nodup_cons.1 hnames).1 (he ▸ hp')
  refine ⟨M', _, _, hM', ?_, hdealt.append hdealt', fun hin => ?_⟩
  · rw [hrest, receivedBy_append]
    exact hbelow.receives hreceives hnd
  · rcases List.mem_append.1 hin with hin | hin
    · exact hopen hin
    · obtain rfl := List.mem_singleton.1 hin
      exact hfresh hbelow.mem_ids

/-- A scope is opened under a newer guard. -/
theorem opens (h : Brackets t i g scope older L ds w) (hw : w.Regular) (ha : w.HasAccess t i) :
    Brackets t i g scope older L (ds ++ w.deeds (.openGuarded t i))
      (w.act (.openGuarded t i)) := by
  obtain ⟨M, closed, received, hM, hnest, hdealt, hopen⟩ := h
  obtain ⟨iso, hi, hid, hready⟩ := hw.exists_ready ha hM
  obtain ⟨-, hfrees, hguards, hdealt'⟩ := openGuarded_of_ready hi hid hready
  refine ⟨_, _, _, hfrees.lays, ?_, hdealt.append hdealt', ?_⟩
  · rw [hguards, List.append_nil]
    exact hnest.opens _ _
  · rwa [List.append_nil]

/-- A local is added. -/
theorem adds (h : Brackets t i g scope older L ds w) (hw : w.Regular) (ha : w.HasAccess t i)
    (named : Option ScopeId) (o : ObjectId) :
    Brackets t i g scope older L (ds ++ w.deeds (.request t i (.addLocal named o)))
      (w.act (.request t i (.addLocal named o))) := by
  obtain ⟨M, closed, received, hM, hnest, hdealt, hopen⟩ := h
  obtain ⟨iso, hi, hid, hready⟩ := hw.exists_ready ha hM
  obtain ⟨received', M', hreceives, hM', hdealt'⟩ := addLocal_of_ready hi hid hready named o
  have hguards : (w.act (.request t i (.addLocal named o))).scopeGuards t i = w.scopeGuards t i :=
    scopeGuards_act hw.attended nofun nofun
  refine ⟨M', _, _, hM', ?_, hdealt.append hdealt', ?_⟩
  · rw [hguards, receivedBy_append]
    exact hnest.receives hreceives hready.nodup
  · rwa [List.append_nil]

/-- Something else is done. -/
theorem rests (h : Brackets t i g scope older L ds w) (hw : w.Regular)
    (hsome : ((w.act b).isolate? i).isSome = true) (hopen : b ≠ .openGuarded t i)
    (hend : ∀ g ∈ b.ended?, g ∉ (w.scopeGuards t i).map Prod.fst)
    (hrests : ∀ d ∈ w.deeds b, d.isAt t i = true → d.job.affectsScopes = false) :
    Brackets t i g scope older L (ds ++ w.deeds b) (w.act b) := by
  obtain ⟨M, closed, received, hM, hnest, hdealt, hnot⟩ := h
  have hM' : (w.act b).Lays t i M := by
    refine hw.lays_act (fun d hd ht hi => hrests d hd ?_) hM hsome
    rw [Deed.isAt, ht, hi, beq_self_eq_true, beq_self_eq_true, Bool.and_self]
  refine ⟨M, _, _, hM', ?_, hdealt.append (.of_rests hrests), ?_⟩
  · rw [scopeGuards_act hw.attended hopen hend, List.append_nil]
    exact hnest
  · rwa [List.append_nil]

/-- **An act keeps guards nested** above a guard that it does not end. -/
theorem act (h : Brackets t i g scope older L ds w) (hw : w.Regular) (hb : Nests t i w b)
    (hsome : ((w.act b).isolate? i).isSome = true) (hne : b.ended? ≠ some g) :
    Brackets t i g scope older L (ds ++ w.deeds b) (w.act b) := by
  by_cases hend : ∃ g' ∈ b.ended?, g' ∈ (w.scopeGuards t i).map Prod.fst
  · obtain ⟨g', hend, hmem⟩ := hend
    refine h.ends hw hb hend hmem ?_
    rintro rfl
    exact hne hend
  by_cases hopen : b = .openGuarded t i
  · subst hopen
    exact h.opens hw hb.access
  by_cases hadd : ∃ named o, b = .request t i (.addLocal named o)
  · obtain ⟨named, o, rfl⟩ := hadd
    exact h.adds hw hb.access named o
  have hnone : ∀ g ∈ b.ended?, g ∉ (w.scopeGuards t i).map Prod.fst :=
    fun g' hg' hmem => hend ⟨g', hg', hmem⟩
  exact h.rests hw hsome hopen hnone (hb.rests hopen (fun named o h => hadd ⟨named, o, h⟩) hnone)

/-- **A run keeps guards nested** above a guard that it does not end. -/
theorem run {acts : List Act} (h : Brackets t i g scope older L ds w)
    (hw : ∀ pre, pre <+: acts → (w.run pre).Regular) (hnests : Along (Nests t i) w acts)
    (hsome : ((w.run acts).isolate? i).isSome = true) (hne : ∀ b ∈ acts, b.ended? ≠ some g) :
    Brackets t i g scope older L (ds ++ w.history acts) (w.run acts) := by
  induction acts using List.reverseRecOn with
  | nil =>
    rw [history, List.append_nil]
    exact h
  | append_singleton acts b ih =>
    obtain ⟨hacts, hb, -⟩ := along_append.1 hnests
    have h' := ih (fun pre hpre => hw pre (hpre.trans (List.prefix_append acts [b]))) hacts
      hb.access.isSome fun b' hb' => hne b' (List.mem_append_left _ hb')
    rw [run_append] at hsome ⊢
    rw [history_append, ← List.append_assoc, history, history, List.append_nil]
    exact h'.act (hw acts (List.prefix_append acts [b])) hb hsome
      (hne b (List.mem_append_right _ (List.mem_singleton_self b)))

end Brackets

/-! ### When the guard ends -/

/-- What a thread does in an isolate in the course of these acts. -/
def dealings (w : World) (t : ThreadKey) (i : IsolateId) (acts : List Act) : List Deed :=
  (w.history acts).filter (·.isAt t i)

/-- The objects of the references that these acts of a thread bring into one of its scopes: those
that are created in it, and those that escape into it. -/
def brought (w : World) (t : ThreadKey) (i : IsolateId) (acts : List Act) (scope : ScopeId) :
    List ObjectId :=
  receivedBy scope ((w.dealings t i acts).filterMap Deed.received?)

/-- **A guard balances** if `acts` open it on a scope and the act `a` ends it. -/
structure Balances (w : World) (t : ThreadKey) (i : IsolateId) (g : GuardId) (scope : ScopeId)
    (acts : List Act) (a : Act) : Prop where
  /-- Once it is opened the guard is live, and its scope is open, up to the end. -/
  live : ∀ pre, pre ≠ [] → pre <+: acts → (g, scope) ∈ (w.run pre).scopeGuards t i ∧
    (w.run pre).isOpen ⟨i, t⟩ scope = true
  gone : (w.run (acts ++ [a])).guard? g = none ∧
    (w.run (acts ++ [a])).isOpen ⟨i, t⟩ scope = false
  /-- Just one deed closes the scope. -/
  closed : ((w.dealings t i (acts ++ [a])).filterMap Deed.closed?).count scope = 1
  depth : (w.run (acts ++ [a])).scopeDepth t i = w.scopeDepth t i
  /-- In the end the scope holds all that was brought into it, above what was there before the
  guard, and the references are released but the one that the guard moves. -/
  released : ∃ L received, w.Lays t i L ∧
    (w.run acts).Lays t i (⟨scope, w.brought t i acts scope⟩ :: L) ∧
    GuardEnds (w.run acts) ⟨g, t, i, .scope scope⟩ scope (w.brought t i acts scope) L a received
      (w.run (acts ++ [a]))
  /-- The signals are those of the deeds that failed, one each; and of what the thread did with
  scopes and locals, only adding, reading and escaping may have failed. -/
  signals : (w.run (acts ++ [a])).shared.signals.toList.map (fun s => (s.isolate, s.error))
    = w.shared.signals.toList.map (fun s => (s.isolate, s.error))
      ++ (w.history (acts ++ [a])).filterMap Deed.failure?
  failures : ∀ d ∈ w.dealings t i (acts ++ [a]), d.error?.isSome = true →
    d.job ≠ .request .openScope ∧ ∀ s, d.job ≠ .request (.closeScope s)

/-- **The innermost guard balances** if the act ends it. -/
theorem Brackets.balances {acts : List Act} {w : World}
    (hlive : ∀ pre, pre ≠ [] → pre <+: acts →
      Brackets t i g scope older L (w.history pre) (w.run pre))
    (hacts : acts ≠ []) (hL : w.Lays t i L) (hw : (w.run acts).Regular)
    (ha : Nests t i (w.run acts) a) (hend : a.ended? = some g) :
    w.Balances t i g scope acts a := by
  obtain ⟨M, closed, received, hM, hnest, hdealt, hnot⟩ := hlive acts hacts List.prefix_rfl
  have hmem := hnest.mem_guards
  obtain ⟨s, rest, hguards⟩ := ha.exists_newest hend (List.mem_map_of_mem hmem)
  have hnd := hw.attended.nodup_scopeGuards t i
  rw [hguards] at hnest hnd
  obtain ⟨R, below, rfl, ⟨-, rfl, rfl, rfl⟩ | hbelow⟩ := hnest.newest
  swap
  · exact absurd (List.mem_map_of_mem hbelow.mem_guards) (List.nodup_cons.1 hnd).1
  obtain ⟨received', hends, hdealt', hused⟩ := hw.ends ha.access hM hmem hend
  obtain ⟨L', hreceives, hL'⟩ := hends.exists_lays
  have hids := hreceives.ids_eq
  have hrun : w.run (acts ++ [a]) = (w.run acts).act a := run_append w acts [a]
  have hhistory : w.history (acts ++ [a]) = w.history acts ++ (w.run acts).deeds a := by
    rw [history_append, history, history, List.append_nil]
  have hall := hdealt.append hdealt'
  rw [← hhistory] at hall
  have hbrought : w.brought t i acts s = receivedBy s received :=
    congrArg (receivedBy s) hdealt.received_eq
  have hfresh : s ∉ Levels.ids below := by
    obtain ⟨iso, hi, hlays⟩ := hM
    exact (List.nodup_cons.1 (hw.nodup iso (mem_of_isolate? hi).1 t _ hlays)).1
  refine {
    live := fun pre hne hpre => ?_
    gone := ⟨?_, ?_⟩
    closed := ?_
    depth := ?_
    released := ⟨below, received', hL, ?_, ?_⟩
    signals := (w.log_run (acts ++ [a])).signals_eq
    failures := fun d hd herror => ?_ }
  · obtain ⟨M', _, _, hM', hnest', _⟩ := hlive pre hne hpre
    exact ⟨hnest'.mem_guards, hM'.isOpen_iff.2 hnest'.mem_ids⟩
  · rw [hrun]
    show (List.find? _ _) = none
    rw [hused, List.find?_eq_none]
    intro x hx
    have hne := (List.mem_filter.1 hx).2
    simpa using hne
  · rw [hrun, ← Bool.not_eq_true, hL'.isOpen_iff, hids]
    exact hfresh
  · show (((w.history (acts ++ [a])).filter _).filterMap _).count s = 1
    rw [hall.closed_eq, List.count_append, List.count_eq_zero_of_not_mem hnot,
      List.count_singleton_self]
  · rw [hrun, hL'.scopeDepth_eq, hL.scopeDepth_eq]
    have hlength := congrArg List.length hids
    rwa [Levels.ids, Levels.ids, List.length_map, List.length_map] at hlength
  · rw [hbrought]
    exact hM
  · rw [hbrought, hrun]
    exact hends
  · have hmisses := hall.misses d hd
    rw [Deed.missesScope, herror, Bool.true_and] at hmisses
    refine ⟨fun hjob => ?_, fun s' hjob => ?_⟩ <;> rw [hjob] at hmisses <;> cases hmisses

/-- **Nested guards balance.**  Let a thread with access to an isolate open a scope there under a
guard, in any state that a run reaches, and keep its access; let it manage its scopes there by
guards only, and end none of them before those that were opened later.  Whatever else it does
meanwhile, and the other threads do, the guard is made, and once it ends, dropped, closed or by an
escape, it has balanced.  No more scopes are opened than there are ids for them. -/
theorem run_guard_balances (before inner : List Act) (a : Act) (t : ThreadKey) (i : IsolateId)
    (hopened : (before ++ .openGuarded t i :: inner).countP Act.opensScope ≤ 2 ^ 64)
    (hnests : Along (Nests t i) (({} : World).run before) (.openGuarded t i :: inner ++ [a])) :
    let w := ({} : World).run before
    ∃ g scope, w.openGuarded? t i = some (.ok (g, scope), w.act (.openGuarded t i)) ∧
      ((∀ b ∈ inner, b.ended? ≠ some g) → a.ended? = some g →
        w.Balances t i g scope (.openGuarded t i :: inner) a) := by
  intro w
  have hreg : ∀ pre, pre <+: .openGuarded t i :: inner → (w.run pre).Regular := by
    intro pre hpre
    have hle := ((hpre.sublist.append_left before).countP_le (p := Act.opensScope)).trans hopened
    rw [← run_append]
    exact regular_run _ hle
  have hw : w.Regular := hreg [] List.nil_prefix
  have hfirst : Nests t i w (.openGuarded t i) := hnests.1
  have hrest : Along (Nests t i) (w.act (.openGuarded t i)) (inner ++ [a]) := hnests.2
  obtain ⟨iso, hi⟩ := Option.isSome_iff_exists.1 hfirst.access.isSome
  obtain ⟨L, hlays⟩ := hw.lays iso (mem_of_isolate? hi).1 t
  have hL : w.Lays t i L := ⟨iso, hi, hlays⟩
  obtain ⟨hopen, hinit⟩ := Brackets.init hw hfirst.access hL
  refine ⟨_, _, hopen, fun hne hend => ?_⟩
  have hlive : ∀ pre, pre ≠ [] → pre <+: .openGuarded t i :: inner →
      Brackets t i ⟨w.nextGuard⟩ w.shared.nextScope (w.scopeGuards t i) L (w.history pre)
        (w.run pre) := by
    intro pre hne' hpre
    cases pre with
    | nil => exact absurd rfl hne'
    | cons b pre =>
      obtain ⟨rfl, later, rfl⟩ := List.cons_prefix_cons.1 hpre
      rw [List.append_assoc, along_append] at hrest
      have hsome : (((w.act (.openGuarded t i)).run pre).isolate? i).isSome = true := by
        cases later with
        | nil => exact hrest.2.1.access.isSome
        | cons b later => exact hrest.2.1.access.isSome
      refine hinit.run (fun pre' hpre' => ?_) hrest.1 hsome fun b hb =>
        hne b (List.mem_append_left _ hb)
      refine hreg (.openGuarded t i :: pre') (List.cons_prefix_cons.2 ⟨rfl, ?_⟩)
      exact hpre'.trans (List.prefix_append pre later)
  exact Brackets.balances hlive (List.cons_ne_nil _ _) hL (hreg _ List.prefix_rfl)
    (along_append.1 hrest).2.1 hend

/-- After this run a thread has a scope open in an isolate, without a guard. -/
def scopeBeneath : List Act :=
  [.make ⟨.unit, []⟩,
    .make ⟨.unit, []⟩,
    .make ⟨.unit, []⟩,
    .newIsolate {},
    .enter ⟨0⟩ ⟨1⟩,
    .request ⟨0⟩ ⟨1⟩ .openScope]

/-- Under a guard the thread makes a local, and two more under guards of their own: the first of
them escapes, the second does not, for it is said to be of another isolate. -/
def guardsWithin : List Act :=
  [.request ⟨0⟩ ⟨1⟩ (.addLocal (some ⟨2⟩) ⟨0⟩),
    .openGuarded ⟨0⟩ ⟨1⟩,
    .request ⟨0⟩ ⟨1⟩ (.addLocal (some ⟨3⟩) ⟨1⟩),
    .escapeGuard ⟨2⟩ ⟨⟨1⟩, ⟨3⟩, .ofCounts 0 1⟩,
    .openGuarded ⟨0⟩ ⟨1⟩,
    .request ⟨0⟩ ⟨1⟩ (.addLocal (some ⟨4⟩) ⟨2⟩),
    .escapeGuard ⟨3⟩ ⟨⟨2⟩, ⟨4⟩, .ofCounts 0 2⟩]

/-- Two objects come into the scope of the first guard, one of them from within, and the other one
then escapes. -/
theorem run_guard_balances_guardsWithin :
    let w := ({} : World).run scopeBeneath
    let acts := .openGuarded ⟨0⟩ ⟨1⟩ :: guardsWithin
    let a := .escapeGuard ⟨1⟩ ⟨⟨1⟩, ⟨2⟩, .ofCounts 0 0⟩
    (scopeBeneath ++ acts).countP Act.opensScope ≤ 2 ^ 64 ∧
      Along (Nests ⟨0⟩ ⟨1⟩) w (acts ++ [a]) ∧
      w.brought ⟨0⟩ ⟨1⟩ acts ⟨2⟩ = [⟨0⟩, ⟨1⟩] ∧
      w.Balances ⟨0⟩ ⟨1⟩ ⟨1⟩ ⟨2⟩ acts a := by
  have hopened : (scopeBeneath ++ .openGuarded ⟨0⟩ ⟨1⟩ :: guardsWithin).countP Act.opensScope
      ≤ 2 ^ 64 := by decide
  have hnests : Along (Nests ⟨0⟩ ⟨1⟩) (({} : World).run scopeBeneath)
      (.openGuarded ⟨0⟩ ⟨1⟩ :: guardsWithin ++ [.escapeGuard ⟨1⟩ ⟨⟨1⟩, ⟨2⟩, .ofCounts 0 0⟩]) := by
    decide +kernel
  obtain ⟨g, scope, hopen, hbalances⟩ :=
    run_guard_balances scopeBeneath guardsWithin _ ⟨0⟩ ⟨1⟩ hopened hnests
  have hguard : ((({} : World).run scopeBeneath).openGuarded? ⟨0⟩ ⟨1⟩).map Prod.fst
      = some (.ok (⟨1⟩, ⟨2⟩)) := by decide +kernel
  rw [hopen] at hguard
  cases hguard
  exact ⟨hopened, hnests, by decide +kernel, hbalances (by decide) rfl⟩

end World
end EngineHandles
