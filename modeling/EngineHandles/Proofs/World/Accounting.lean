/-
# Reference accounting

In every run in which the host plays fair (`World.Fair`) the strong tally of an object is
the number of its strong holders: the host's own references, the locals of all threads in
all isolates, the strong persistent handles, and the payloads that will release it.  The
weak tally is the number of its weak holders, which are the host and the weak persistent
handles (`World.run_accounts`).

Each act keeps the books of the world (`World.Books.act`): a request works on the storage
of one isolate while all others hold what they hold, an isolate that ends releases what it
stores, and everything else leaves the references alone.
-/

import EngineHandles.Proofs.Isolate.Roots
import EngineHandles.Proofs.World.Run

namespace EngineHandles
namespace World

variable {strict : Prop} {w w' : World} {L L' : Ledger} {i : IsolateId} {iso iso' : Isolate}

/-- The references that the slots of all isolates hold. -/
def slotHolds (w : World) : Account := (w.isolates.map fun iso => iso.storage.holds).sum

/-- The references that the slots of all isolates but one hold. -/
def othersHold (w : World) (i : IsolateId) : Account :=
  ((w.isolates.filter fun j => j.id != i).map fun iso => iso.storage.holds).sum

/-- What an act makes of the host's ledger, if the host may do it: it releases and re-kinds
only references that it holds, in acts and in callbacks, it hands references over to
payloads that release only strong ones, and refers only to objects that it may refer to. -/
def Allows (strict : Prop) (w : World) (L : Ledger) : Act → Ledger → Prop
  | .tally op, L' => L.Covers strict w.heap op L'
  | .make p, L' =>
    OnlyReleases p.onDrop ∧ L'.met = L.met ∧ L.holds = L'.holds + .released p.onDrop
  | .furnish o ops, L' =>
    (w.heap.cell o).isDestroyed = false ∧ OnlyReleases ops ∧ L'.met = L.met ∧
      L.holds + .released (w.heap.cell o).destructor = L'.holds + .released ops
  | .request _ i .collectWeak, L' =>
    match w.isolate? i with
    | none => L' = L
    | some iso =>
      iso.storage.persistents.SweepCovered strict (w.othersHold i + iso.storage.localHolds) w.heap
        L L'
  | .request _ _ r, L' => (∀ o, r.object? = some o → w.heap.Admits strict o) ∧ L' = L
  | _, L' => L' = L

/-- The books of a world, if the host's ledger is `L`. -/
structure Books (strict : Prop) (L : Ledger) (w : World) : Prop where
  storages : ∀ iso ∈ w.isolates, iso.storage.WellFormed
  books : w.heap.Books strict L.met (L.holds + w.slotHolds)

/-- What the slots hold: those of one isolate, and those of the others. -/
theorem WellFormed.slotHolds_eq (hw : w.WellFormed) (hi : w.isolate? i = some iso) :
    w.slotHolds = w.othersHold i + iso.storage.holds := by
  rw [slotHolds, othersHold, ((hw.exists_perm hi).1.map _).sum_eq, List.map_cons, List.sum_cons,
    add_comm]

theorem WellFormed.slotHolds_put (hw : w.WellFormed) (hi : w.isolate? i = some iso)
    {r : Isolate × Shared} (hid : r.1.id = i) :
    (w.put r).slotHolds = w.othersHold i + r.1.storage.holds := by
  have hset := (hw.exists_perm hi).2 r.1 hid
  show ((w.setIsolate r.1).isolates.map _).sum = _
  rw [othersHold, (hset.map _).sum_eq, List.map_cons, List.sum_cons, add_comm]

/-- **An isolate beside the others:** they and the host hold all but what it stores. -/
theorem Books.storage (hb : Books strict L w) (hw : w.WellFormed) (hi : w.isolate? i = some iso) :
    iso.storage.Books strict L.met (L.holds + w.othersHold i) w.heap := by
  refine ⟨hb.storages iso (mem_of_isolate? hi).1, ?_⟩
  rw [add_assoc, ← hw.slotHolds_eq hi]
  exact hb.books

theorem Books.put (hb : Books strict L w) (hw : w.WellFormed) (hi : w.isolate? i = some iso)
    {r : Isolate × Shared} (hid : r.1.id = i)
    (hop : r.1.storage.Books strict L'.met (L'.holds + w.othersHold i) r.2.heap) :
    Books strict L' (w.put r) := by
  refine ⟨fun j hj => ?_, ?_⟩
  · rcases List.mem_cons.1 (((hw.exists_perm hi).2 r.1 hid).mem_iff.1 hj) with rfl | hj
    · exact hop.wellFormed
    · exact hb.storages j (List.mem_filter.1 hj).1
  · rw [hw.slotHolds_put hi hid, ← add_assoc]
    exact hop.books

/-- An isolate that ends releases what it stores. -/
theorem Books.reap (hb : Books strict L w) (hw : w.WellFormed) (i : IsolateId) :
    Books strict L (w.reap i) := by
  rcases w.reap_cases i with hr | ⟨iso, hi, hr⟩
  · rw [hr]
    exact hb
  · rw [hr]
    refine ⟨fun j hj => hb.storages j (List.mem_filter.1 hj).1, ?_⟩
    exact (hb.storage hw hi).discard

/-- A new isolate stores nothing. -/
theorem Books.newIsolate (hb : Books strict L w) (c : IsolateConfig) :
    Books strict L (w.newIsolate c).2 := by
  rcases w.newIsolate_cases c with hn | ⟨iso, hc, hn⟩
  · rw [hn]
    exact hb
  · obtain ⟨-, hstacks, hpers⟩ := Isolate.ofConfig?_eq_ok hc
    obtain ⟨hstored, hholds⟩ := PersistentStore.isStored_of_ofConfig? hpers
    have hnone : iso.storage.holds = 0 := by
      rw [Storage.holds, Storage.localHolds, hstacks, hholds]
      rfl
    have hslots : (w.newIsolate c).2.slotHolds = w.slotHolds := by
      rw [hn, slotHolds, List.map_append, List.sum_append, List.map_singleton,
        List.sum_singleton, hnone, add_zero, slotHolds]
    refine ⟨fun j hj => ?_, ?_⟩
    · rw [hn] at hj
      rcases List.mem_append.1 hj with hj | hj
      · exact hb.storages j hj
      · obtain rfl := List.mem_singleton.1 hj
        refine ⟨?_, ?_, hstored⟩
        · rw [hstacks]
          simp
        · rw [Storage.owners, hstacks]
          exact .nil
    · rw [hslots, hn]
      exact hb.books

/-- **The work of threads and guards keeps the books.** -/
theorem Books.works {P : ThreadKey → Prop} (hb : Books strict L w) (hw : w.WellFormed) (h : Works P w w') :
    Books strict L w' := by
  induction h with
  | beside hi _ hh _ _ =>
    constructor
    · rw [hi]
      exact hb.storages
    · rw [hh, slotHolds, hi]
      exact hb.books
  | @rewrite w iso iso' hi hid hs _ =>
    refine hb.put (r := (iso', w.shared)) hw hi hid ?_
    rw [hs]
    exact hb.storage hw hi
  | @serve w iso hi t r hr =>
    refine hb.put hw hi (r.id_serve t iso w.shared) ?_
    have hs := hb.storage hw hi
    cases r with
    | closeScope scope => exact Isolate.books_closeScope scope hs
    | escape scope l => exact Isolate.books_escape scope l hs
    | _ => cases hr
  | reap w i => exact hb.reap hw i
  | trans h₁ _ ih₁ ih₂ => exact ih₂ (ih₁ hb hw) (hw.works h₁)

theorem Books.openScope (hb : Books strict L w) (hw : w.WellFormed) (t : ThreadKey)
    (i : IsolateId) : Books strict L (w.act (.request t i .openScope)) := by
  rw [act_request]
  cases hi : w.isolate? i with
  | none => exact hb
  | some iso =>
    obtain ⟨-, rfl⟩ := mem_of_isolate? hi
    exact hb.put hw hi (Request.openScope.id_serve t iso w.shared)
      (Isolate.books_openScope (hb.storage hw hi))

/-- A request works on one isolate, while the others hold what they hold. -/
theorem Books.request (hb : Books strict L w) (hw : w.WellFormed) {t : ThreadKey} {i : IsolateId}
    {r : Request} (ha : Allows strict w L (.request t i r) L')
    (hfits : (w.act (.request t i r)).heap.Fits
      (L'.holds + (w.act (.request t i r)).slotHolds)) :
    Books strict L' (w.act (.request t i r)) := by
  rw [act_request] at hfits ⊢
  cases hi : w.isolate? i with
  | none =>
    obtain rfl : L' = L := by
      cases r with
      | collectWeak =>
        rw [Allows, hi] at ha
        exact ha
      | _ => exact ha.2
    exact hb
  | some iso =>
    rw [hi] at hfits
    obtain ⟨-, rfl⟩ := mem_of_isolate? hi
    have hid := r.id_serve t iso w.shared
    have hs := hb.storage hw hi
    refine hb.put hw hi hid ?_
    by_cases hr : r = .collectWeak
    · subst hr
      rw [Allows, hi] at ha
      exact Isolate.books_collectWeak ha hs
    · obtain ⟨ho, rfl⟩ : (∀ o, r.object? = some o → w.heap.Admits strict o) ∧ L' = L := by
        cases r with
        | collectWeak => exact absurd rfl hr
        | _ => exact ha
      refine Request.books_serve ho hr hs ?_
      rw [add_assoc, ← hw.slotHolds_put hi hid]
      exact hfits

/-- **Every act keeps the books,** if the host may do it and no object has too many
references afterwards. -/
theorem Books.act (hb : Books strict L w) (hw : w.WellFormed) {a : Act}
    (ha : Allows strict w L a L') (hfits : (w.act a).heap.Fits (L'.holds + (w.act a).slotHolds)) :
    Books strict L' (w.act a) := by
  cases a with
  | tally op => exact ⟨hb.storages, Ledger.Covers.books ha hfits hb.books⟩
  | make p =>
    obtain ⟨hops, hmet, hholds⟩ := ha
    have hbooks := hb.books
    rw [hholds, add_right_comm] at hbooks
    refine ⟨hb.storages, ?_⟩
    rw [hmet]
    exact hbooks.make hops
  | furnish o ops =>
    obtain ⟨ho, hops, hmet, hholds⟩ := ha
    refine ⟨hb.storages, ?_⟩
    rw [hmet]
    refine hb.books.furnish hops ho ?_
    rw [add_right_comm, hholds]
    exact add_right_comm _ _ _
  | newIsolate c =>
    obtain rfl : L' = L := ha
    exact hb.newIsolate c
  | request t i r => exact hb.request hw ha hfits
  | openGuarded t i =>
    obtain rfl : L' = L := ha
    exact (hb.openScope hw t i).works (hw.request t i .openScope) (w.works_openGuarded t i)
  | _ =>
    obtain rfl : L' = L := ha
    exact hb.works hw (works_act w rfl)

/-! ### Fair runs -/

/-- All references to objects, if `L` is the host's ledger. -/
def references (w : World) (L : Ledger) : Account := L.holds + w.slotHolds + w.heap.owned

/-- **How many references there can be:** those of the host, and one for each slot and for
each operation that waits in a destructor. -/
theorem total_references_le (w : World) (L : Ledger) (o : ObjectId) :
    (w.references L).total o ≤ L.holds.total o
      + (w.isolates.map fun iso => iso.storage.slotCount).sum + w.heap.dormant := by
  have hslots := Account.total_sum_le (l := w.isolates) (f := fun iso => iso.storage.holds)
    fun iso _ => iso.storage.total_holds_le o
  have howned := w.heap.total_owned_le o
  rw [references, Account.total_add, Account.total_add]
  exact Nat.add_le_add (Nat.add_le_add_left hslots _) howned

/-- The ledger after an act: it remembers the objects that are referred to now. -/
def remember (w : World) (L : Ledger) : Ledger :=
  ⟨L.holds, fun o => L.met o ∨ 0 < (w.references L).total o⟩

/-- Runs in which the host plays fair: it does only what its ledger allows, and no object
ever has `2 ^ 32` references. -/
inductive Fair (strict : Prop) : World → Ledger → List Act → Ledger → Prop where
  | nil (w : World) (L : Ledger) : Fair strict w L [] L
  | cons {w : World} {L L₁ L₂ : Ledger} {a : Act} {rest : List Act}
      (allowed : Allows strict w L a L₁)
      (fits : ∀ o, ((w.act a).references L₁).total o < 2 ^ 32)
      (others : Fair strict (w.act a) ((w.act a).remember L₁) rest L₂) :
      Fair strict w L (a :: rest) L₂

/-- A run is fair while the host holds little and there are few slots and few operations in
destructors. -/
theorem exists_fair_cons {M : Ledger} {a : Act} {rest : List Act} {Q : Ledger → Prop}
    (allowed : Allows strict w L a M) (hL : ∀ o, M.holds.total o < 2 ^ 31)
    (hfew : ((w.act a).isolates.map fun iso => iso.storage.slotCount).sum
      + (w.act a).heap.dormant < 2 ^ 31)
    (others : ∃ L', Fair strict (w.act a) ((w.act a).remember M) rest L' ∧ Q L') :
    ∃ L', Fair strict w L (a :: rest) L' ∧ Q L' := by
  obtain ⟨L', hf, hQ⟩ := others
  refine ⟨L', .cons allowed (fun o => ?_) hf, hQ⟩
  have := total_references_le (w.act a) M o
  have := hL o
  omega

theorem Fair.append {xs ys : List Act} {M : Ledger} (hx : Fair strict w L xs M)
    (hy : Fair strict (w.run xs) M ys L') : Fair strict w L (xs ++ ys) L' := by
  induction hx with
  | nil => exact hy
  | cons allowed fits _ ih => exact .cons allowed fits (ih hy)

theorem Fair.of_append {xs ys : List Act} (h : Fair strict w L (xs ++ ys) L') :
    ∃ M, Fair strict w L xs M ∧ Fair strict (w.run xs) M ys L' := by
  induction xs generalizing w L with
  | nil => exact ⟨L, .nil w L, h⟩
  | cons a xs ih =>
    cases h with
    | cons allowed fits others =>
      obtain ⟨M, hxs, hys⟩ := ih others
      exact ⟨M, .cons allowed fits hxs, hys⟩

/-- A sweep whose callbacks leave the tallies alone is always allowed. -/
theorem allows_collectWeak {t : ThreadKey} {i : IsolateId}
    (hq : ∀ iso ∈ w.isolates, ∀ r ∈ iso.storage.persistents.records, ∀ c h,
      (r.2.callback c h).effects = []) :
    Allows strict w L (.request t i .collectWeak) L := by
  rw [Allows]
  split
  · rfl
  · next iso hi =>
    exact PersistentStore.sweepCovered_of_quiet (hq iso (mem_of_isolate? hi).1)

/-- A host that holds one reference holds little. -/
theorem total_one_few (x : ObjectId) (k : RefKind) (o : ObjectId) :
    (0 + Account.one x k).total o < 2 ^ 31 := by
  rw [zero_add]
  exact Nat.lt_of_le_of_lt (Account.total_one_le x k o) (by decide)

theorem books_init (strict : Prop) : Books strict {} ({} : World) := by
  refine ⟨nofun, ?_, ?_, ?_, ?_, nofun, nofun, ?_, nofun⟩
  · intro o k
    cases k <;> rfl
  · intro o
    exact Nat.two_pow_pos 32
  · intro o
    exact onlyReleases_nil
  · intro _ o ho
    exact absurd ho (Nat.lt_irrefl 0)
  · intro o
    rfl

/-- To remember what is referred to keeps the books. -/
theorem Books.remember (hb : Books strict L w) : Books strict (w.remember L) w :=
  ⟨hb.storages, Heap.Balanced.meet hb.books⟩

/-- **Every fair run keeps the books.** -/
theorem Books.run {acts : List Act} (hb : Books strict L w) (hw : w.WellFormed)
    (hf : Fair strict w L acts L') : Books strict L' (w.run acts) := by
  induction hf with
  | nil => exact hb
  | cons allowed fits _ ih => exact ih (hb.act hw allowed fits).remember (hw.act _)

/-! ### The tallies -/

/-- How many local slots of all threads in all isolates hold an object. -/
def localCount (w : World) (o : ObjectId) : Nat :=
  (w.isolates.map fun iso => iso.storage.localCount o).sum

/-- How many persistent slots of a kind in all isolates hold an object. -/
def persistentCount (w : World) (k : RefKind) (o : ObjectId) : Nat :=
  (w.isolates.map fun iso => iso.storage.persistentCount k o).sum

theorem slotHolds_apply (w : World) (o : ObjectId) (k : RefKind) :
    w.slotHolds o k = (w.isolates.map fun iso => iso.storage.holds o k).sum := by
  rw [slotHolds, Account.sum_apply, List.map_map]
  rfl

theorem Books.slotHolds_strong (hb : Books strict L w) (o : ObjectId) :
    w.slotHolds o .strong = w.localCount o + w.persistentCount .strong o := by
  rw [slotHolds_apply, localCount, persistentCount, ← List.sum_map_add]
  congr 1
  exact List.map_congr_left fun iso hi => (hb.storages iso hi).holds_strong o

theorem Books.slotHolds_weak (hb : Books strict L w) (o : ObjectId) :
    w.slotHolds o .weak = w.persistentCount .weak o := by
  rw [slotHolds_apply, persistentCount]
  congr 1
  exact List.map_congr_left fun iso hi => (hb.storages iso hi).holds_weak o

/-- How often a walk over the roots of all isolates meets an object. -/
theorem countP_roots (w : World) (o : ObjectId) :
    ((w.isolates.flatMap Isolate.roots).countP fun r => r.2.2 == o)
      = w.localCount o + w.persistentCount .strong o := by
  rw [List.countP_flatMap, localCount, persistentCount, ← List.sum_map_add]
  congr 1
  exact List.map_congr_left fun iso _ => iso.countP_roots o

/-- A run after which the host, a local, a persistent handle and a payload hold references:
the payload of the second object owns one to the first. -/
def everyHolder : List Act :=
  [.make ⟨.unit, []⟩,
    .tally (.retain ⟨0⟩ .strong),
    .make ⟨.unit, [.release ⟨0⟩ .strong]⟩,
    .tally (.retain ⟨1⟩ .strong),
    .newIsolate {},
    .enter ⟨0⟩ ⟨1⟩,
    .request ⟨0⟩ ⟨1⟩ .openScope,
    .request ⟨0⟩ ⟨1⟩ (.addLocal none ⟨1⟩),
    .request ⟨0⟩ ⟨1⟩ (.makePersistent ⟨1⟩),
    .request ⟨0⟩ ⟨1⟩ (.makeWeak ⟨⟨1⟩, .ofCounts 0 0⟩ ⟨7, fun _ _ => ⟨.release, []⟩⟩)]

theorem fair_everyHolder (strict : Prop) : ∃ L, Fair strict {} {} everyHolder L ∧
    L.holds = 0 + .one ⟨1⟩ .strong := by
  have hzero : ∀ o, (0 : Account).total o < 2 ^ 31 := fun _ => Nat.two_pow_pos 31
  have hone : ∀ x o, (0 + Account.one x .strong).total o < 2 ^ 31 :=
    fun x o => total_one_few x .strong o
  refine exists_fair_cons (M := {}) ⟨onlyReleases_nil, rfl, rfl⟩ hzero (by decide +kernel) ?_
  refine exists_fair_cons (.retain _ ⟨0⟩ .strong ⟨rfl, fun _ => rfl⟩) (hone _)
    (by decide +kernel) ?_
  refine exists_fair_cons (M := ⟨0, _⟩) ⟨?_, rfl, ?_⟩ hzero (by decide +kernel) ?_
  · intro op hop
    obtain rfl := List.mem_singleton.1 hop
    exact ⟨⟨0⟩, rfl⟩
  · show 0 + Account.one ⟨0⟩ .strong = 0 + Account.released [.release ⟨0⟩ .strong]
    simp only [Account.released_cons, Account.released_nil, zero_add]
  refine exists_fair_cons (.retain _ ⟨1⟩ .strong ⟨rfl, fun _ => rfl⟩) (hone _)
    (by decide +kernel) ?_
  refine exists_fair_cons rfl (hone _) (by decide +kernel) ?_
  refine exists_fair_cons rfl (hone _) (by decide +kernel) ?_
  refine exists_fair_cons ⟨nofun, rfl⟩ (hone _) (by decide +kernel) ?_
  refine exists_fair_cons ⟨?_, rfl⟩ (hone _) (by decide +kernel) ?_
  · intro o ho
    cases ho
    exact ⟨by decide +kernel, fun _ => by decide +kernel⟩
  refine exists_fair_cons ⟨?_, rfl⟩ (hone _) (by decide +kernel) ?_
  · intro o ho
    cases ho
    exact ⟨by decide +kernel, fun _ => by decide +kernel⟩
  refine exists_fair_cons ⟨nofun, rfl⟩ (hone _) (by decide +kernel) ?_
  exact ⟨_, .nil _ _, rfl⟩

/-- **Reference accounting.**  In every state that a fair run reaches, of any acts by any
threads on any isolates, the strong tally of an object is the number of references that the
host holds, of local slots and of strong persistent slots that hold it, and of references
that live payloads own; the weak tally is the number of weak references that the host holds
and of weak persistent slots; and a walk over the roots of all isolates meets the object
once for each strong slot. -/
theorem run_accounts (acts : List Act) (L : Ledger) (hf : Fair False {} {} acts L)
    (o : ObjectId) :
    let w := ({} : World).run acts
    (w.heap.cell o).tally.strong.toNat
        = L.holds o .strong + w.localCount o + w.persistentCount .strong o
          + w.heap.owned o .strong ∧
      (w.heap.cell o).tally.weak.toNat = L.holds o .weak + w.persistentCount .weak o ∧
      ((w.isolates.flatMap Isolate.roots).countP fun r => r.2.2 == o)
        = w.localCount o + w.persistentCount .strong o := by
  intro w
  have hb : Books False L w := (books_init False).run wellFormed_init hf
  refine ⟨?_, ?_, w.countP_roots o⟩
  · have hcount := hb.books.count_eq o .strong
    rw [Account.add_apply, Account.add_apply, hb.slotHolds_strong] at hcount
    rw [← Nat.add_assoc] at hcount
    exact hcount
  · have hcount := hb.books.count_eq o .weak
    rw [Account.add_apply, Account.add_apply, hb.slotHolds_weak,
      hb.books.owned_weak, Nat.add_zero] at hcount
    exact hcount

/-- The accounts after a run in which all kinds of holders take part. -/
theorem run_accounts_everyHolder :
    let w := ({} : World).run everyHolder
    ∃ L, Fair False {} {} everyHolder L ∧ L.holds ⟨1⟩ .strong = 1 ∧ w.localCount ⟨1⟩ = 1 ∧
      w.persistentCount .weak ⟨1⟩ = 1 ∧ w.heap.owned ⟨0⟩ .strong = 1 ∧
      (w.heap.cell ⟨1⟩).tally.strong.toNat = L.holds ⟨1⟩ .strong + w.localCount ⟨1⟩
        + w.persistentCount .strong ⟨1⟩ + w.heap.owned ⟨1⟩ .strong := by
  intro w
  obtain ⟨L, hf, hL⟩ := fair_everyHolder False
  refine ⟨L, hf, ?_, by decide +kernel, by decide +kernel, by decide +kernel, ?_⟩
  · rw [hL]
    rfl
  · exact (run_accounts everyHolder L hf ⟨1⟩).1

end World
end EngineHandles
