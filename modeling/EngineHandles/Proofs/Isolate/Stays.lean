/-
# Stays of threads

A thread's stay in an isolate lasts from an enter made while the thread was outside until
the exit that undoes its last enter.  A registry only keeps a number and a link for each
thread that is inside, but that is enough to read the history of all threads off it, whatever
they call and in whatever order.

Each call moves one thread (`Registry.get?_call_of_ne`), and the number kept for that thread
follows its enters and exits as long as it does not wrap (`Tallied.step`).  An entry is put
at the end when a stay begins, keeps its place while the stay lasts and is taken out from
between the others at its end, so the entries stand in the order in which their stays began
(`InOrder.concat`).  `Registry.run_stays` puts the two together.
-/

import Mathlib.Data.List.Forall2
import EngineHandles.Proofs.Isolate.Registry

namespace EngineHandles

/-! ### Calls of many threads -/

/-- What threads ask of a registry.  An enter brings the computation of what its thread was
in before. -/
inductive RegistryCall (P σ : Type) where
  | enter (t : ThreadKey) (previous : σ → Option P × σ)
  | exit (t : ThreadKey)
  | relink (t : ThreadKey) (previous : Option P)

/-- What a registry replies. -/
inductive RegistryReply (P : Type) where
  | entered (count : UInt32)
  | exited (outcome : Option (ExitOutcome P))
  | relinked (inside : Bool)
deriving DecidableEq, Repr

namespace RegistryCall

variable {P σ : Type}

/-- The thread that a call is about. -/
def thread : RegistryCall P σ → ThreadKey
  | .enter t _ | .exit t | .relink t _ => t

/-- Whether a call is an enter of `t`. -/
def enters (t : ThreadKey) : RegistryCall P σ → Bool
  | .enter u _ => u == t
  | .exit _ | .relink _ _ => false

/-- What a call links `t` to. -/
def link? (t : ThreadKey) : RegistryCall P σ → Option (Option P)
  | .relink u previous => if u = t then some previous else none
  | .enter _ _ | .exit _ => none

/-- Whether a call was an exit of `t`, and not refused. -/
def exits (t : ThreadKey) : RegistryCall P σ × RegistryReply P → Bool
  | (.exit u, .exited (some _)) => u == t
  | _ => false

end RegistryCall

/-- A registry after some calls, with the state that the computations of enters work on and
the calls so far with their replies. -/
structure RegistryRun (P σ : Type) where
  registry : Registry P
  state : σ
  log : List (RegistryCall P σ × RegistryReply P)

variable {P σ : Type}

/-- Serves one call. -/
def Registry.call (r : Registry P) (s : σ) : RegistryCall P σ → RegistryReply P × Registry P × σ
  | .enter t previous => let (count, r', s') := r.enterWith t previous s; (.entered count, r', s')
  | .exit t => let (outcome, r') := r.exit t; (.exited outcome, r', s)
  | .relink t previous => let (inside, r') := r.relink t previous; (.relinked inside, r', s)

namespace RegistryRun

/-- The reply to one more call. -/
def reply (x : RegistryRun P σ) (c : RegistryCall P σ) : RegistryReply P :=
  (x.registry.call x.state c).1

/-- One more call. -/
def step (x : RegistryRun P σ) (c : RegistryCall P σ) : RegistryRun P σ where
  registry := (x.registry.call x.state c).2.1
  state := (x.registry.call x.state c).2.2
  log := x.log ++ [(c, x.reply c)]

/-- The number of enters of a thread. -/
def enters (x : RegistryRun P σ) (t : ThreadKey) : Nat := x.log.countP fun p => p.1.enters t

/-- The number of exits of a thread that were not refused. -/
def exits (x : RegistryRun P σ) (t : ThreadKey) : Nat := x.log.countP (RegistryCall.exits t)

end RegistryRun

/-- A new registry after calls of any threads. -/
def Registry.run (s₀ : σ) (calls : List (RegistryCall P σ)) : RegistryRun P σ :=
  calls.foldl RegistryRun.step ⟨{}, s₀, []⟩

namespace Registry

variable {r : Registry P} {t u : ThreadKey} {s s₀ : σ} {c : RegistryCall P σ}
  {calls : List (RegistryCall P σ)}

theorem run_concat (s₀ : σ) (calls : List (RegistryCall P σ)) (c : RegistryCall P σ) :
    run s₀ (calls ++ [c]) = (run s₀ calls).step c := by
  rw [run, List.foldl_append]
  rfl

/-! ### One call -/

/-- An enter leaves what `Registry.enter` leaves when it is told what the computation says. -/
theorem enterWith_registry (r : Registry P) (t : ThreadKey) (previous : σ → Option P × σ) (s : σ) :
    (r.enterWith t previous s).2.1 = (r.enter t (previous s).1).2 := by
  unfold enter enterWith
  cases r.get? t <;> rfl

/-- **The computation** of an enter is done once if the thread is outside, and else not. -/
theorem enterWith_state (r : Registry P) (t : ThreadKey) (previous : σ → Option P × σ) (s : σ) :
    (r.enterWith t previous s).2.2 = if r.contains t = true then s else (previous s).2 := by
  unfold enterWith contains
  cases r.get? t <;> rfl

/-- **A call is about one thread.** -/
theorem get?_call_of_ne (r : Registry P) (s : σ) (hu : u ≠ c.thread) :
    (r.call s c).2.1.get? u = r.get? u := by
  cases c with
  | enter t previous =>
    show (r.enterWith t previous s).2.1.get? u = _
    rw [enterWith_registry, get?_enter]
    exact if_neg hu
  | exit t => exact r.get?_exit_of_ne hu
  | relink t previous => exact (r.get?_relink t previous u).trans (if_neg hu)

theorem isSome_get?_iff : (r.get? t).isSome = true ↔ t ∈ r.threads := by
  unfold get? threads
  rw [List.find?_isSome, List.mem_map]
  exact exists_congr fun e => and_congr_right fun _ => beq_iff_eq

/-- The threads that are listed are those inside. -/
theorem contains_iff : r.contains t = true ↔ t ∈ r.threads := isSome_get?_iff

theorem contains_of_mem {e : RegistryEntry P} (he : e ∈ r.entries) : r.contains e.thread = true :=
  contains_iff.2 (List.mem_map_of_mem he)

theorem contains_eq_false_iff : r.contains t = false ↔ r.get? t = none := by
  rw [contains, Option.isSome_eq_false_iff, Option.isNone_iff_eq_none]

theorem count_of_get? {e : RegistryEntry P} (hget : r.get? t = some e) : r.count t = e.count := by
  rw [count, hget]
  rfl

theorem count_of_outside (hget : r.get? t = none) : r.count t = 0 := by
  rw [count, hget]
  rfl

theorem thread_of_get? {e : RegistryEntry P} (hget : r.get? t = some e) : e.thread = t :=
  eq_of_beq (List.find?_some hget :)

theorem update_of_outside (hget : r.get? t = none) (f : RegistryEntry P → RegistryEntry P) :
    r.update t f = r := by
  have hne : ∀ e ∈ r.entries, (if e.thread = t then f e else e) = e := fun e he =>
    if_neg fun heq => List.find?_eq_none.1 hget e he (beq_iff_eq.2 heq)
  rw [update, List.map_congr_left hne, List.map_id']

/-- An exit of a thread that is inside, by what is left of its enters. -/
theorem exit_cases {e : RegistryEntry P} (hget : r.get? t = some e) :
    (e.count - 1 > 0 ∧ r.exit t = (some (.stayed (e.count - 1)),
        r.update t fun e => { e with count := e.count - 1 })) ∨
      (¬ e.count - 1 > 0 ∧ r.exit t = (some (.left e.previous), r.erase t)) := by
  unfold exit
  rw [hget]
  by_cases hmore : e.count - 1 > 0
  · exact .inl ⟨hmore, if_pos hmore⟩
  · exact .inr ⟨hmore, if_neg hmore⟩

end Registry

/-! ### Tallies -/

namespace RegistryRun

variable {x : RegistryRun P σ} {t u : ThreadKey} {s₀ : σ} {c : RegistryCall P σ}

/-- The number that is kept for a thread is that of its enters less that of its exits, and a
thread is inside as long as that is not zero. -/
structure Tallied (x : RegistryRun P σ) (t : ThreadKey) : Prop where
  balance : (x.registry.count t).toNat + x.exits t = x.enters t
  inside : x.registry.contains t = true ↔ 0 < (x.registry.count t).toNat

theorem enters_step (x : RegistryRun P σ) (c : RegistryCall P σ) (t : ThreadKey) :
    (x.step c).enters t = x.enters t + if c.enters t = true then 1 else 0 :=
  List.countP_append.trans (congrArg _ List.countP_singleton)

theorem exits_step (x : RegistryRun P σ) (c : RegistryCall P σ) (t : ThreadKey) :
    (x.step c).exits t
      = x.exits t + if RegistryCall.exits t (c, x.reply c) = true then 1 else 0 :=
  List.countP_append.trans (congrArg _ List.countP_singleton)

theorem enters_step_of_ne (hu : u ≠ c.thread) : (x.step c).enters u = x.enters u := by
  have hno : ¬ c.enters u = true := by
    cases c with
    | enter t previous => exact fun h => hu (eq_of_beq h).symm
    | exit t => exact Bool.false_ne_true
    | relink t previous => exact Bool.false_ne_true
  rw [enters_step, if_neg hno, Nat.add_zero]

theorem exits_step_of_ne (hu : u ≠ c.thread) : (x.step c).exits u = x.exits u := by
  have hno : ¬ RegistryCall.exits u (c, x.reply c) = true := by
    cases c with
    | enter t previous => exact Bool.false_ne_true
    | relink t previous => exact Bool.false_ne_true
    | exit t =>
      show ¬ RegistryCall.exits u (.exit t, .exited (x.registry.exit t).1) = true
      cases (x.registry.exit t).1 with
      | none => exact Bool.false_ne_true
      | some outcome => exact fun h => hu (eq_of_beq h).symm
  rw [exits_step, if_neg hno, Nat.add_zero]

theorem Tallied.of_get?_eq {y : RegistryRun P σ} (h : x.Tallied t)
    (hget : y.registry.get? t = x.registry.get? t) (henters : y.enters t = x.enters t)
    (hexits : y.exits t = x.exits t) : y.Tallied t := by
  have hcount : y.registry.count t = x.registry.count t := by
    rw [Registry.count, Registry.count, hget]
  have hinside : y.registry.contains t = x.registry.contains t := by
    rw [Registry.contains, Registry.contains, hget]
  refine ⟨?_, ?_⟩
  · rw [hcount, henters, hexits]
    exact h.balance
  · rw [hcount, hinside]
    exact h.inside

theorem Tallied.of_inside {e : RegistryEntry P} (hget : x.registry.get? t = some e)
    (hpos : 0 < e.count.toNat) (hbalance : e.count.toNat + x.exits t = x.enters t) :
    x.Tallied t := by
  refine ⟨?_, ?_⟩
  · rw [Registry.count_of_get? hget]
    exact hbalance
  · rw [Registry.count_of_get? hget, Registry.contains, hget]
    exact iff_of_true rfl hpos

theorem Tallied.of_outside (hget : x.registry.get? t = none) (hbalance : x.exits t = x.enters t) :
    x.Tallied t := by
  refine ⟨?_, ?_⟩
  · rw [Registry.count_of_outside hget, ← hbalance]
    exact Nat.zero_add _
  · rw [Registry.count_of_outside hget, Registry.contains, hget]
    exact iff_of_false Bool.false_ne_true (Nat.lt_irrefl 0)

/-- What is kept for a thread that is inside. -/
theorem Tallied.of_get? {e : RegistryEntry P} (h : x.Tallied t)
    (hget : x.registry.get? t = some e) :
    e.count.toNat + x.exits t = x.enters t ∧ 0 < e.count.toNat := by
  obtain ⟨hbalance, hinside⟩ := h
  rw [Registry.count_of_get? hget] at hbalance hinside
  rw [Registry.contains, hget] at hinside
  exact ⟨hbalance, hinside.1 rfl⟩

theorem Tallied.balance_of_outside (h : x.Tallied t) (hget : x.registry.get? t = none) :
    x.exits t = x.enters t := by
  have hbalance := h.balance
  rw [Registry.count_of_outside hget] at hbalance
  exact (Nat.zero_add _).symm.trans hbalance

/-- The enters of a thread less its exits decide whether it is inside. -/
theorem Tallied.contains_iff (h : x.Tallied t) :
    x.registry.contains t = true ↔ x.exits t < x.enters t := by
  rw [h.inside, ← h.balance]
  omega

theorem Tallied.enter (h : x.Tallied t) (previous : σ → Option P × σ)
    (hfew : x.enters t + 1 < x.exits t + 2 ^ 32) : (x.step (.enter t previous)).Tallied t := by
  have henters : (x.step (.enter t previous)).enters t = x.enters t + 1 := by
    rw [enters_step]
    exact congrArg _ (if_pos (beq_self_eq_true t))
  have hexits : (x.step (.enter t previous)).exits t = x.exits t := exits_step ..
  have hget : (x.step (.enter t previous)).registry.get? t = _ :=
    (congrArg (Registry.get? · t) (Registry.enterWith_registry ..)).trans
      ((Registry.get?_enter ..).trans (if_pos rfl))
  cases hx : x.registry.get? t with
  | some e =>
    obtain ⟨hbalance, -⟩ := h.of_get? hx
    have hadd : (e.count + 1).toNat = e.count.toNat + 1 := by
      rw [UInt32.toNat_add]
      exact Nat.mod_eq_of_lt (by show e.count.toNat + 1 < _; omega)
    rw [hx] at hget
    exact .of_inside hget (by rw [hadd]; omega) (by rw [hadd, henters, hexits]; omega)
  | none =>
    have hbalance := h.balance_of_outside hx
    rw [hx] at hget
    exact .of_inside hget Nat.one_pos (by rw [henters, hexits, hbalance]; exact Nat.add_comm 1 _)

theorem Tallied.exit (h : x.Tallied t) : (x.step (.exit t)).Tallied t := by
  have henters : (x.step (.exit t)).enters t = x.enters t := enters_step ..
  have hexits : (x.step (.exit t)).exits t = x.exits t
      + if RegistryCall.exits t (.exit t, .exited (x.registry.exit t).1) = true then 1 else 0 :=
    exits_step ..
  cases hx : x.registry.get? t with
  | some e =>
    obtain ⟨hbalance, hpos⟩ := h.of_get? hx
    have hsub : (e.count - 1).toNat = e.count.toNat - 1 :=
      UInt32.toNat_sub_of_le _ _ (UInt32.le_iff_toNat_le.2 hpos)
    obtain ⟨hsome, hget⟩ := Registry.exit_of_get? hx
    obtain ⟨outcome, houtcome⟩ := Option.isSome_iff_exists.1 hsome
    rw [houtcome, RegistryCall.exits, if_pos (beq_self_eq_true t)] at hexits
    by_cases hmore : e.count - 1 > 0
    · have hmore' := UInt32.lt_iff_toNat_lt.1 hmore
      rw [if_pos hmore] at hget
      exact .of_inside hget hmore' (by rw [hsub, henters, hexits]; omega)
    · have hlast : (e.count - 1).toNat = 0 :=
        Nat.eq_zero_of_not_pos fun h0 => hmore (UInt32.lt_iff_toNat_lt.2 h0)
      rw [if_neg hmore] at hget
      exact .of_outside hget (by rw [henters, hexits]; omega)
  | none =>
    have hexit := Registry.exit_of_get?_eq_none hx
    have hsame : (x.step (.exit t)).registry = x.registry := congrArg Prod.snd hexit
    rw [hexit] at hexits
    exact h.of_get?_eq (by rw [hsame]) henters hexits

theorem Tallied.relink (h : x.Tallied t) (previous : Option P) :
    (x.step (.relink t previous)).Tallied t := by
  have henters : (x.step (.relink t previous)).enters t = x.enters t := enters_step ..
  have hexits : (x.step (.relink t previous)).exits t = x.exits t := exits_step ..
  have hget : (x.step (.relink t previous)).registry.get? t
      = (x.registry.get? t).map fun e => { e with previous } :=
    (x.registry.get?_relink t previous t).trans (if_pos rfl)
  cases hx : x.registry.get? t with
  | some e =>
    obtain ⟨hbalance, hpos⟩ := h.of_get? hx
    rw [hx] at hget
    exact .of_inside hget hpos (by rw [henters, hexits]; exact hbalance)
  | none =>
    rw [hx] at hget
    exact .of_outside hget (by rw [henters, hexits]; exact h.balance_of_outside hx)

/-- **The number kept for each thread follows its calls**, whoever calls, as long as there are
less than `2 ^ 32` enters to undo. -/
theorem Tallied.step (h : x.Tallied t)
    (hfew : (x.step c).enters t < (x.step c).exits t + 2 ^ 32) : (x.step c).Tallied t := by
  by_cases ht : t = c.thread
  · subst ht
    cases c with
    | enter t previous =>
      have henters : (x.step (.enter t previous)).enters t = x.enters t + 1 :=
        (enters_step ..).trans (congrArg _ (if_pos (beq_self_eq_true t)))
      have hexits : (x.step (.enter t previous)).exits t = x.exits t := exits_step ..
      exact h.enter previous (henters ▸ hexits ▸ hfew)
    | exit t => exact h.exit
    | relink t previous => exact h.relink previous
  · exact h.of_get?_eq (Registry.get?_call_of_ne _ _ ht) (enters_step_of_ne ht) (exits_step_of_ne ht)

end RegistryRun

/-! ### Stays -/

/-- What calls link `t` to last, if they do. -/
def RegistryCall.lastLink? (t : ThreadKey) (calls : List (RegistryCall P σ)) : Option (Option P) :=
  (calls.filterMap (link? t)).getLast?

theorem RegistryCall.lastLink?_concat (t : ThreadKey) (calls : List (RegistryCall P σ))
    (c : RegistryCall P σ) : lastLink? t (calls ++ [c]) = (c.link? t).or (lastLink? t calls) := by
  rw [lastLink?, List.filterMap_append]
  cases hlink : c.link? t with
  | none => rw [List.filterMap_cons_none hlink, List.filterMap_nil, List.append_nil]; rfl
  | some previous =>
    rw [List.filterMap_cons_some hlink, List.filterMap_nil, List.getLast?_concat]
    rfl

namespace Registry

variable {r : Registry P} {t : ThreadKey} {s₀ : σ} {c : RegistryCall P σ}
  {calls : List (RegistryCall P σ)} {e e' : RegistryEntry P} {k : Nat}

/-- An entry is for a stay that began with call `k`. -/
structure Stay (s₀ : σ) (calls : List (RegistryCall P σ)) (e : RegistryEntry P) (k : Nat) :
    Prop where
  /-- The thread entered, and is linked to what it was last relinked to since, or else to what
  its enter computed. -/
  began : ∃ previous, calls[k]? = some (.enter e.thread previous) ∧
    e.previous = (RegistryCall.lastLink? e.thread (calls.drop (k + 1))).getD
      (previous (run s₀ (calls.take k)).state).1
  /-- The thread was outside before. -/
  outside : (run s₀ (calls.take k)).registry.contains e.thread = false
  /-- The thread has been inside since. -/
  inside : ∀ j, k < j → j ≤ calls.length →
    (run s₀ (calls.take j)).registry.contains e.thread = true

/-- Each entry is for a stay, and the entries stand in the order in which their stays began. -/
def InOrder (s₀ : σ) (calls : List (RegistryCall P σ)) : Prop :=
  ∃ starts : List Nat, starts.Pairwise (· < ·) ∧
    List.Forall₂ (Stay s₀ calls) (run s₀ calls).registry.entries starts

theorem Stay.lt_length (h : Stay s₀ calls e k) : k < calls.length := by
  obtain ⟨previous, hcall, -⟩ := h.began
  exact (List.getElem?_eq_some_iff.1 hcall).1

/-- **A stay lasts** as long as the thread is inside, and the entry follows the links. -/
theorem Stay.concat (h : Stay s₀ calls e k) (hthread : e'.thread = e.thread)
    (hlink : e'.previous = (c.link? e.thread).getD e.previous)
    (hinside : (run s₀ (calls ++ [c])).registry.contains e.thread = true) :
    Stay s₀ (calls ++ [c]) e' k := by
  have hk := h.lt_length
  have htake : ∀ {j}, j ≤ calls.length → (calls ++ [c]).take j = calls.take j :=
    List.take_append_of_le_length
  obtain ⟨previous, hcall, hprevious⟩ := h.began
  refine ⟨⟨previous, ?_, ?_⟩, ?_, fun j hkj hj => ?_⟩
  · rw [hthread, List.getElem?_append_left hk]
    exact hcall
  · rw [hthread, hlink, hprevious, htake hk.le, List.drop_append_of_le_length hk,
      RegistryCall.lastLink?_concat]
    cases c.link? e.thread <;> rfl
  · rw [hthread, htake hk.le]
    exact h.outside
  · rw [hthread]
    rw [List.length_append, List.length_singleton] at hj
    rcases Nat.le_succ_iff.1 hj with hj | rfl
    · rw [htake hj]
      exact h.inside j hkj hj
    · rw [List.take_of_length_le (by simp)]
      exact hinside

/-- **A stay begins** with an enter of a thread that is outside. -/
theorem stay_enter {calls : List (RegistryCall P σ)} {previous : σ → Option P × σ}
    (hprevious : e.previous = (previous (run s₀ calls).state).1)
    (houtside : (run s₀ calls).registry.contains e.thread = false)
    (hinside : (run s₀ (calls ++ [.enter e.thread previous])).registry.contains e.thread = true) :
    Stay s₀ (calls ++ [.enter e.thread previous]) e calls.length := by
  have htake : (calls ++ [RegistryCall.enter e.thread previous]).take calls.length = calls :=
    List.take_left
  have hdrop : (calls ++ [RegistryCall.enter e.thread previous]).drop (calls.length + 1) = [] :=
    List.drop_of_length_le (by simp)
  refine ⟨⟨previous, List.getElem?_concat_length, ?_⟩, ?_, fun j hj _ => ?_⟩
  · rw [hdrop, htake, hprevious]
    rfl
  · rw [htake]
    exact houtside
  · rw [List.take_of_length_le (by simpa using hj)]
    exact hinside

/-- What is related to a list is still so, in the same order, after some of the list is gone. -/
theorem forall₂_of_sublist {α β : Type} {R S : α → β → Prop} {l l' : List α} {m : List β}
    (hsub : l'.Sublist l) (h : List.Forall₂ R l m) (himp : ∀ a ∈ l', ∀ b, R a b → S a b) :
    ∃ m', m'.Sublist m ∧ List.Forall₂ S l' m' := by
  induction hsub generalizing m with
  | slnil => exact ⟨[], List.nil_sublist m, .nil⟩
  | cons a _ ih =>
    cases h with
    | cons _ hrest =>
      obtain ⟨m', hm', hS⟩ := ih hrest himp
      exact ⟨m', hm'.cons _, hS⟩
  | cons_cons a _ ih =>
    cases h with
    | @cons _ b _ _ hab hrest =>
      obtain ⟨m', hm', hS⟩ := ih hrest fun x hx => himp x (List.mem_cons_of_mem a hx)
      exact ⟨b :: m', hm'.cons_cons b, .cons (himp a (List.mem_cons_self ..) b hab) hS⟩

/-- **Whoever stays keeps the place:** entries that are written, but for their links as the
call says, and perhaps some of them taken out. -/
theorem InOrder.kept (h : InOrder s₀ calls) {l : List (RegistryEntry P)}
    (f : RegistryEntry P → RegistryEntry P)
    (hl : l.Sublist ((run s₀ calls).registry.entries.map f))
    (hthread : ∀ e, (f e).thread = e.thread)
    (hlink : ∀ e, (f e).previous = (c.link? e.thread).getD e.previous)
    (hinside : ∀ e ∈ l, (run s₀ (calls ++ [c])).registry.contains e.thread = true) :
    ∃ starts : List Nat, starts.Pairwise (· < ·) ∧ (∀ k ∈ starts, k < calls.length) ∧
      List.Forall₂ (Stay s₀ (calls ++ [c])) l starts := by
  obtain ⟨starts, hsorted, hstays⟩ := h
  have hlt : ∀ k ∈ starts, k < calls.length :=
    ((List.forall₂_and_left ..).1 (hstays.flip.imp fun k e hstay => ⟨hstay.lt_length, hstay⟩)).1
  have hmap : List.Forall₂ (fun e' k => ∃ e, Stay s₀ calls e k ∧ e' = f e)
      ((run s₀ calls).registry.entries.map f) starts :=
    List.forall₂_map_left_iff.2 (hstays.imp fun e k hstay => ⟨e, hstay, rfl⟩)
  obtain ⟨starts', hsub, hstays'⟩ := forall₂_of_sublist (S := Stay s₀ (calls ++ [c])) hl hmap (by
    rintro - he k ⟨e, hstay, rfl⟩
    exact hstay.concat (hthread e) (hlink e) (hthread e ▸ hinside _ he))
  exact ⟨starts', hsorted.sublist hsub, fun k hk => hlt k (hsub.subset hk), hstays'⟩

theorem run_registry_concat (s₀ : σ) (calls : List (RegistryCall P σ)) (c : RegistryCall P σ) :
    (run s₀ (calls ++ [c])).registry = ((run s₀ calls).registry.call (run s₀ calls).state c).2.1 := by
  rw [run_concat]
  rfl

theorem InOrder.update (h : InOrder s₀ calls) {f : RegistryEntry P → RegistryEntry P}
    (hr : (run s₀ (calls ++ [c])).registry = (run s₀ calls).registry.update t f)
    (hthread : ∀ e, (f e).thread = e.thread)
    (hlink : ∀ e, (if e.thread = t then f e else e).previous
      = (c.link? e.thread).getD e.previous) : InOrder s₀ (calls ++ [c]) := by
  have hkey : ∀ e, (if e.thread = t then f e else e).thread = e.thread := by
    intro e
    split
    · exact hthread e
    · rfl
  obtain ⟨starts, hsorted, -, hstays⟩ := h.kept (c := c) _ (List.Sublist.refl _) hkey hlink
    fun e he => contains_of_mem (by rw [hr]; exact he)
  rw [InOrder, hr]
  exact ⟨starts, hsorted, hstays⟩

theorem InOrder.sublist (h : InOrder s₀ calls)
    (hr : (run s₀ (calls ++ [c])).registry.entries.Sublist (run s₀ calls).registry.entries)
    (hlink : ∀ t, c.link? t = none) : InOrder s₀ (calls ++ [c]) := by
  obtain ⟨starts, hsorted, -, hstays⟩ := h.kept (c := c) id (by rwa [List.map_id]) (fun _ => rfl)
    (fun e => by rw [hlink]; rfl) fun e he => contains_of_mem he
  exact ⟨starts, hsorted, hstays⟩

theorem InOrder.enter (h : InOrder s₀ calls) (t : ThreadKey) (previous : σ → Option P × σ) :
    InOrder s₀ (calls ++ [.enter t previous]) := by
  cases hget : (run s₀ calls).registry.get? t with
  | some e =>
    have hr : (run s₀ (calls ++ [.enter t previous])).registry
        = (run s₀ calls).registry.update t fun e => { e with count := e.count + 1 } := by
      rw [run_registry_concat, call, enterWith, hget]
    exact h.update hr (fun _ => rfl) fun e => by split <;> rfl
  | none =>
    let e : RegistryEntry P := ⟨t, 1, (previous (run s₀ calls).state).1⟩
    have hr : (run s₀ (calls ++ [.enter t previous])).registry.entries
        = (run s₀ calls).registry.entries ++ [e] := by
      rw [run_registry_concat, call, enterWith, hget]
    have hinside : ∀ e' ∈ (run s₀ calls).registry.entries ++ [e],
        (run s₀ (calls ++ [.enter t previous])).registry.contains e'.thread = true :=
      fun e' he => contains_of_mem (by rw [hr]; exact he)
    obtain ⟨starts, hsorted, hlt, hstays⟩ := h.kept (c := .enter t previous) id
      (by rw [List.map_id]) (fun _ => rfl) (fun _ => rfl)
      fun e' he => hinside e' (List.mem_append_left _ he)
    have hnew : Stay s₀ (calls ++ [.enter t previous]) e calls.length :=
      stay_enter rfl (contains_eq_false_iff.2 hget)
        (hinside e (List.mem_append_right _ (List.mem_singleton_self e)))
    refine ⟨starts ++ [calls.length], ?_, ?_⟩
    · refine List.pairwise_append.2 ⟨hsorted, List.pairwise_singleton .., fun k hk j hj => ?_⟩
      rw [List.mem_singleton.1 hj]
      exact hlt k hk
    · rw [hr]
      exact List.rel_append hstays (.cons hnew .nil)

theorem InOrder.exit (h : InOrder s₀ calls) (t : ThreadKey) :
    InOrder s₀ (calls ++ [.exit t]) := by
  have hr : (run s₀ (calls ++ [.exit t])).registry = ((run s₀ calls).registry.exit t).2 :=
    run_registry_concat ..
  cases hget : (run s₀ calls).registry.get? t with
  | none =>
    rw [exit_of_get?_eq_none hget] at hr
    exact h.sublist (by rw [hr]) fun _ => rfl
  | some e =>
    obtain ⟨-, hexit⟩ | ⟨-, hexit⟩ := exit_cases hget
    · rw [hexit] at hr
      exact h.update hr (fun _ => rfl) fun e => by split <;> rfl
    · rw [hexit] at hr
      exact h.sublist (by rw [hr]; exact List.filter_sublist) fun _ => rfl

/-- **The entries stay in order,** whatever is called. -/
theorem InOrder.concat (h : InOrder s₀ calls) (c : RegistryCall P σ) :
    InOrder s₀ (calls ++ [c]) := by
  cases c with
  | enter t previous => exact h.enter t previous
  | exit t => exact h.exit t
  | relink t previous =>
    refine h.update (t := t) (run_registry_concat ..) (fun _ => rfl) fun e => ?_
    rw [RegistryCall.link?]
    by_cases he : e.thread = t
    · rw [if_pos he, if_pos he.symm]
      rfl
    · rw [if_neg he, if_neg fun h => he h.symm]
      rfl

/-! ### Who is listed -/

theorem threads_update (r : Registry P) (t : ThreadKey) {f : RegistryEntry P → RegistryEntry P}
    (hf : ∀ e, (f e).thread = e.thread) : (r.update t f).threads = r.threads := by
  have hkey : RegistryEntry.thread ∘ (fun e => if e.thread = t then f e else e)
      = RegistryEntry.thread (P := P) := by
    funext e
    rw [Function.comp_apply]
    split
    · exact hf e
    · rfl
  rw [threads, update, List.map_map, hkey]
  rfl

theorem threads_erase (r : Registry P) (t : ThreadKey) :
    (r.erase t).threads = r.threads.filter (· != t) := by
  rw [threads, threads, List.filter_map]
  rfl

/-- An enter lists its thread last, if it was not listed. -/
theorem threads_enterWith (r : Registry P) (t : ThreadKey) (previous : σ → Option P × σ) (s : σ) :
    (r.enterWith t previous s).2.1.threads
      = if r.contains t = true then r.threads else r.threads ++ [t] := by
  unfold enterWith contains
  cases r.get? t with
  | some e => exact threads_update r t fun _ => rfl
  | none => exact List.map_append

theorem nodup_threads_call (hnd : r.threads.Nodup) (s : σ) (c : RegistryCall P σ) :
    (r.call s c).2.1.threads.Nodup := by
  cases c with
  | enter t previous =>
    show (r.enterWith t previous s).2.1.threads.Nodup
    rw [threads_enterWith]
    split
    · exact hnd
    · next hout =>
      refine List.nodup_append.2 ⟨hnd, List.nodup_singleton t, fun u hu v hv huv => ?_⟩
      rw [List.mem_singleton.1 hv] at huv
      exact hout (contains_iff.2 (huv ▸ hu))
  | exit t =>
    show (r.exit t).2.threads.Nodup
    cases hget : r.get? t with
    | none => rwa [exit_of_get?_eq_none hget]
    | some e =>
      obtain ⟨-, hexit⟩ | ⟨-, hexit⟩ := exit_cases hget
      · rw [hexit, threads_update]
        · exact hnd
        · exact fun _ => rfl
      · rw [hexit, threads_erase]
        exact hnd.filter _
  | relink t previous =>
    show (r.update t _).threads.Nodup
    rw [threads_update]
    · exact hnd
    · exact fun _ => rfl

end Registry

/-! ### All calls -/

namespace RegistryRun

variable {x : RegistryRun P σ} {t : ThreadKey}

/-- What a call does: an enter is counted, and its computation done only if the thread was
outside; an exit says how many enters are left, or what the thread is back in after the last,
or nothing if the thread was outside; a relink says whether the thread is inside. -/
def Serves (x : RegistryRun P σ) : RegistryCall P σ → Prop
  | .enter t previous =>
    (∃ n, x.reply (.enter t previous) = .entered n ∧ n.toNat + x.exits t = x.enters t + 1) ∧
    (x.step (.enter t previous)).state
      = (if x.registry.contains t = true then x.state else (previous x.state).2) ∧
    (x.step (.enter t previous)).registry.threads
      = if x.registry.contains t = true then x.registry.threads else x.registry.threads ++ [t]
  | .exit t =>
    (x.step (.exit t)).state = x.state ∧
    (x.enters t = x.exits t →
      x.reply (.exit t) = .exited none ∧ (x.step (.exit t)).registry = x.registry) ∧
    (x.enters t = x.exits t + 1 →
      (∃ e ∈ x.registry.entries, e.thread = t ∧
        x.reply (.exit t) = .exited (some (.left e.previous))) ∧
      (x.step (.exit t)).registry.threads = x.registry.threads.filter (· != t)) ∧
    ∀ n, x.enters t = x.exits t + (n + 2) →
      (∃ m, m.toNat = n + 1 ∧ x.reply (.exit t) = .exited (some (.stayed m))) ∧
      (x.step (.exit t)).registry.threads = x.registry.threads
  | .relink t previous =>
    x.reply (.relink t previous) = .relinked (x.registry.contains t) ∧
    (x.step (.relink t previous)).state = x.state ∧
    (x.step (.relink t previous)).registry.threads = x.registry.threads ∧
    (x.registry.contains t = false → (x.step (.relink t previous)).registry = x.registry)

theorem Tallied.serves_enter (h : x.Tallied t) {previous : σ → Option P × σ}
    (hfew : x.enters t + 1 < x.exits t + 2 ^ 32) : x.Serves (.enter t previous) := by
  refine ⟨⟨(x.registry.enterWith t previous x.state).1, rfl, ?_⟩,
    Registry.enterWith_state .., Registry.threads_enterWith ..⟩
  unfold Registry.enterWith
  cases hget : x.registry.get? t with
  | some e =>
    obtain ⟨hbalance, -⟩ := h.of_get? hget
    have hadd : (e.count + 1).toNat = e.count.toNat + 1 := by
      rw [UInt32.toNat_add]
      exact Nat.mod_eq_of_lt (by show e.count.toNat + 1 < _; omega)
    show (e.count + 1).toNat + _ = _
    omega
  | none =>
    have hbalance := h.balance_of_outside hget
    show 1 + x.exits t = _
    omega

theorem Tallied.serves_exit (h : x.Tallied t) : x.Serves (.exit t) := by
  have hreply : x.reply (.exit t) = .exited (x.registry.exit t).1 := rfl
  have hregistry : (x.step (.exit t)).registry = (x.registry.exit t).2 := rfl
  refine ⟨rfl, ?_⟩
  rw [hreply, hregistry]
  cases hget : x.registry.get? t with
  | none =>
    have hbalance := h.balance_of_outside hget
    rw [Registry.exit_of_get?_eq_none hget]
    exact ⟨fun _ => ⟨rfl, rfl⟩, fun hone => by omega, fun n hmore => by omega⟩
  | some e =>
    obtain ⟨hbalance, hpos⟩ := h.of_get? hget
    have hsub : (e.count - 1).toNat = e.count.toNat - 1 :=
      UInt32.toNat_sub_of_le _ _ (UInt32.le_iff_toNat_le.2 hpos)
    refine ⟨fun hnone => by omega, fun hone => ?_, fun n hmore => ?_⟩
    · obtain ⟨hleft, -⟩ | ⟨-, hexit⟩ := Registry.exit_cases hget
      · have hleft := UInt32.lt_iff_toNat_lt.1 hleft
        rw [hsub] at hleft
        exact absurd hleft (by show ¬ 0 < _; omega)
      · rw [hexit]
        exact ⟨⟨e, List.mem_of_find?_eq_some hget, Registry.thread_of_get? hget, rfl⟩,
          Registry.threads_erase ..⟩
    · obtain ⟨-, hexit⟩ | ⟨hlast, -⟩ := Registry.exit_cases hget
      · rw [hexit]
        exact ⟨⟨e.count - 1, by omega, rfl⟩, Registry.threads_update _ _ fun _ => rfl⟩
      · refine absurd (UInt32.lt_iff_toNat_lt.2 ?_) hlast
        rw [hsub]
        show 0 < _
        omega

theorem serves_relink (x : RegistryRun P σ) (t : ThreadKey) (previous : Option P) :
    x.Serves (.relink t previous) :=
  ⟨rfl, rfl, Registry.threads_update _ _ fun _ => rfl,
    fun hout => Registry.update_of_outside (Registry.contains_eq_false_iff.1 hout) _⟩

end RegistryRun

namespace Registry

variable {s₀ : σ} {calls : List (RegistryCall P σ)}

/-- Less than `2 ^ 32` enters of a thread are ever left to undo. -/
def Few (s₀ : σ) (calls : List (RegistryCall P σ)) : Prop :=
  ∀ k t, (run s₀ (calls.take k)).enters t < (run s₀ (calls.take k)).exits t + 2 ^ 32

theorem Few.take (hfew : Few s₀ calls) (n : Nat) : Few s₀ (calls.take n) := by
  intro k t
  rw [List.take_take]
  exact hfew (min k n) t

theorem length_log (s₀ : σ) (calls : List (RegistryCall P σ)) :
    (run s₀ calls).log.length = calls.length := by
  induction calls using List.reverseRecOn with
  | nil => rfl
  | append_singleton calls c ih =>
    rw [run_concat, List.length_append, ← ih]
    exact List.length_append

/-- Nobody can enter `2 ^ 32` times with fewer calls. -/
theorem few_of_length_lt (hlen : calls.length < 2 ^ 32) : Few s₀ calls := by
  intro k t
  have hle : (run s₀ (calls.take k)).enters t ≤ (calls.take k).length :=
    List.countP_le_length.trans_eq (length_log ..)
  have htake := List.length_take_le' k calls
  omega

/-- What the books of a registry say after some calls. -/
structure Booked (s₀ : σ) (calls : List (RegistryCall P σ)) : Prop where
  /-- A thread has an entry if its enters outnumber its exits. -/
  inside : ∀ t, (run s₀ calls).registry.contains t = true ↔
    (run s₀ calls).exits t < (run s₀ calls).enters t
  /-- Its count is the difference. -/
  count : ∀ t, ((run s₀ calls).registry.count t).toNat + (run s₀ calls).exits t
    = (run s₀ calls).enters t
  /-- No thread is listed twice. -/
  nodup : (run s₀ calls).registry.threads.Nodup
  /-- Each entry has the link of its stay, and they stand as their stays began. -/
  order : InOrder s₀ calls

theorem tallied_run (hfew : Few s₀ calls) (t : ThreadKey) : (run s₀ calls).Tallied t := by
  induction calls using List.reverseRecOn with
  | nil => exact .of_outside rfl rfl
  | append_singleton calls c ih =>
    have hbefore := hfew.take calls.length
    have hlast := hfew (calls ++ [c]).length t
    rw [List.take_left] at hbefore
    rw [List.take_length, run_concat] at hlast
    rw [run_concat]
    exact (ih hbefore).step hlast

theorem inOrder_run (s₀ : σ) (calls : List (RegistryCall P σ)) : InOrder s₀ calls := by
  induction calls using List.reverseRecOn with
  | nil => exact ⟨[], .nil, .nil⟩
  | append_singleton calls c ih => exact ih.concat c

theorem nodup_threads_run (s₀ : σ) (calls : List (RegistryCall P σ)) :
    (run s₀ calls).registry.threads.Nodup := by
  induction calls using List.reverseRecOn with
  | nil => exact .nil
  | append_singleton calls c ih =>
    rw [run_registry_concat]
    exact nodup_threads_call ih _ c

theorem Few.booked (hfew : Few s₀ calls) : Booked s₀ calls where
  inside t := (tallied_run hfew t).contains_iff
  count t := (tallied_run hfew t).balance
  nodup := nodup_threads_run s₀ calls
  order := inOrder_run s₀ calls

theorem Few.serves (hfew : Few s₀ (calls ++ [c])) : (run s₀ calls).Serves c := by
  have hbefore := hfew.take calls.length
  rw [List.take_left] at hbefore
  cases c with
  | enter t previous =>
    have hlast := hfew (calls ++ [RegistryCall.enter t previous]).length t
    have hexits : ((run s₀ calls).step (.enter t previous)).exits t = (run s₀ calls).exits t :=
      RegistryRun.exits_step ..
    rw [List.take_length, run_concat, hexits, RegistryRun.enters_step] at hlast
    have hone : RegistryCall.enters t (RegistryCall.enter t previous) = true := beq_self_eq_true t
    rw [if_pos hone] at hlast
    exact (tallied_run hbefore t).serves_enter hlast
  | exit t => exact (tallied_run hbefore t).serves_exit
  | relink t previous => exact RegistryRun.serves_relink ..

/-- **The registry keeps the books of all threads.**  At every moment of every interleaving
of enters, exits and relinks a thread is listed, once, if its enters outnumber its exits, with
the difference as its count; the entries stand in the order in which the stays of their threads
began, and each is linked to what the enter that began the stay computed, or to what its thread
was last relinked to since.  Each call is answered accordingly and touches the entry of its own
thread only. -/
theorem run_stays (s₀ : σ) (calls : List (RegistryCall P σ)) (hfew : Few s₀ calls) :
    (∀ k, Booked s₀ (calls.take k)) ∧
      ∀ k c, calls[k]? = some c →
        run s₀ (calls.take (k + 1)) = (run s₀ (calls.take k)).step c ∧
        (run s₀ (calls.take k)).Serves c ∧
        ∀ u, u ≠ c.thread → (run s₀ (calls.take (k + 1))).registry.get? u
          = (run s₀ (calls.take k)).registry.get? u := by
  refine ⟨fun k => (hfew.take k).booked, fun k c hcall => ?_⟩
  have htake : calls.take (k + 1) = calls.take k ++ [c] := by
    rw [List.take_add_one, hcall]
    rfl
  have hupto := hfew.take (k + 1)
  rw [htake] at hupto
  rw [htake, run_concat]
  exact ⟨rfl, hupto.serves, fun u hu => get?_call_of_ne _ _ hu⟩

/-- Threads `1` and `2` come, `1` twice; `1` is relinked, `2` leaves, is refused once and comes
again; the computations count how often they are done. -/
def comings : List (RegistryCall Nat Nat) :=
  [.enter ⟨1⟩ fun n => (none, n + 1), .enter ⟨2⟩ fun n => (some 7, n + 1),
    .enter ⟨1⟩ fun n => (some 8, n + 1), .relink ⟨1⟩ (some 9), .exit ⟨2⟩, .exit ⟨2⟩,
    .enter ⟨2⟩ fun n => (none, n + 1), .exit ⟨1⟩]

/-- Thread `1` has stayed since call `0`, once more to leave, and `2` since call `6`: three
computations were done. -/
theorem run_stays_comings :
    Booked 0 comings ∧ (run 0 (comings.take 4)).Serves (.exit ⟨2⟩) ∧
      (run 0 comings).registry = ⟨[⟨⟨1⟩, 1, some 9⟩, ⟨⟨2⟩, 1, none⟩]⟩ ∧ (run 0 comings).state = 3 := by
  have hfew : Few 0 comings := few_of_length_lt (by decide)
  obtain ⟨hbooked, hserves⟩ := run_stays 0 comings hfew
  exact ⟨hbooked comings.length, (hserves 4 _ rfl).2.1, rfl, rfl⟩

end Registry
end EngineHandles
