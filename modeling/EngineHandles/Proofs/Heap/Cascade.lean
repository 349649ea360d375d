/-
# What a cascade reaches

A destructor releases strong references that its payload owned.  So the cascade of a release
reaches an object only through a strong reference, one of the operations at hand or one that
a payload owns: an object without either keeps its tallies and its payload, whatever else is
destroyed (`Heap.settle_spares`).

An object that only weak references reach is such an object.  Moving or releasing one of its
weak references changes its own tally and nothing else (`Heap.Recounts`), until the last one
goes; then its payload is dropped first, and whatever follows spares the other objects of
this kind (`Heap.release_weak_last`).
-/

import EngineHandles.Proofs.Heap.Books

namespace EngineHandles
namespace Heap

variable {h h' h'' : Heap} {o x : ObjectId} {k : RefKind}

/-! ### Changes to one tally -/

/-- Heaps that differ in the tally of one object at most, and in the journal. -/
structure Recounts (o : ObjectId) (h h' : Heap) : Prop where
  others : ∀ x, x ≠ o → h'.cell x = h.cell x
  payload : (h'.cell o).payload = (h.cell o).payload
  owned : h'.owned = h.owned

namespace Recounts

theorem refl (o : ObjectId) (h : Heap) : Recounts o h h := ⟨fun _ _ => rfl, rfl, rfl⟩

theorem trans (hr : Recounts o h h') (hr' : Recounts o h' h'') : Recounts o h h'' :=
  ⟨fun x hx => (hr'.others x hx).trans (hr.others x hx), hr'.payload.trans hr.payload,
    hr'.owned.trans hr.owned⟩

theorem record (h : Heap) (m : Moment) (o : ObjectId) : Recounts o h (h.record m) :=
  ⟨fun _ _ => rfl, rfl, rfl⟩

theorem adjust (h : Heap) (o : ObjectId) (f : Tally → Tally) : Recounts o h (h.adjust o f) := by
  refine ⟨fun x hx => ?_, h.payload_adjust o f o, h.owned_adjust o f⟩
  by_cases ho : h.contains o = true
  · rw [cell_adjust ho, if_neg hx]
  · rw [adjust_of_not_contains ho]

theorem payload_eq (hr : Recounts o h h') (x : ObjectId) :
    (h'.cell x).payload = (h.cell x).payload := by
  by_cases hx : x = o
  · rw [hx, hr.payload]
  · rw [hr.others x hx]

theorem isDestroyed_eq (hr : Recounts o h h') (x : ObjectId) :
    (h'.cell x).isDestroyed = (h.cell x).isDestroyed := by
  rw [Cell.isDestroyed, hr.payload_eq, Cell.isDestroyed]

theorem ownsStrong (hr : Recounts o h h') (hs : h.OwnsStrong) : h'.OwnsStrong := fun x => by
  rw [Cell.destructor, hr.payload_eq]
  exact hs x

end Recounts

theorem tally_adjust (ho : h.contains o = true) (f : Tally → Tally) :
    ((h.adjust o f).cell o).tally = f (h.cell o).tally := by
  rw [cell_adjust ho, if_pos rfl]

/-- An object with a tally was made. -/
theorem contains_of_count (hk : 0 < ((h.cell o).tally.count k).toNat) : h.contains o = true := by
  by_contra ho
  rw [cell_of_not_contains ho] at hk
  cases k <;> exact absurd hk (Nat.lt_irrefl 0)

/-- An object that is not destroyed was made. -/
theorem contains_of_alive (hd : (h.cell o).isDestroyed = false) : h.contains o = true := by
  obtain ⟨p, hp⟩ := Option.isSome_iff_exists.1 (Option.isNone_eq_false_iff.1 hd)
  exact contains_of_payload hp

/-- **What letting go can do:** nothing, change the tally, or destroy the object too. -/
theorem letGo_cases (h : Heap) (o : ObjectId) (k : RefKind) :
    ((h.cell o).tally.takeOne? k = none ∧ h.letGo o k = (false, [], h)) ∨
    ∃ rest, (h.cell o).tally.takeOne? k = some rest ∧
      (((rest.isZero = false ∨ (h.cell o).isDestroyed = true) ∧
        h.letGo o k = (false, [], h.adjust o fun _ => rest)) ∨
      (rest.isZero = true ∧ (h.cell o).isDestroyed = false ∧
        h.letGo o k = (true, (h.adjust o fun _ => rest).destroy o))) := by
  unfold letGo
  cases (h.cell o).tally.takeOne? k with
  | none => exact .inl ⟨rfl, rfl⟩
  | some rest =>
    refine .inr ⟨rest, rfl, ?_⟩
    dsimp only
    cases rest.isZero with
    | false => exact .inl ⟨.inl rfl, rfl⟩
    | true =>
      cases (h.cell o).isDestroyed with
      | false => exact .inr ⟨rfl, rfl, rfl⟩
      | true => exact .inl ⟨.inr rfl, rfl⟩

/-- **Strengthening** moves one from the weak tally to the strong one. -/
theorem strengthen_recounts (hw : 0 < (h.cell o).tally.weak.toNat)
    (hs : (h.cell o).tally.strong.toNat + 1 < 2 ^ 32) :
    Recounts o h (h.strengthen o) ∧
      ((h.strengthen o).cell o).tally.strong.toNat = (h.cell o).tally.strong.toNat + 1 ∧
      ((h.strengthen o).cell o).tally.weak.toNat + 1 = (h.cell o).tally.weak.toNat := by
  obtain ⟨rest, hrest, hcount⟩ := Tally.exists_takeOne? (k := .weak) hw
  have hstrong : (h.cell o).tally.strong.toNat = rest.strong.toNat := hcount .strong
  have hweak : (h.cell o).tally.weak.toNat = rest.weak.toNat + 1 := hcount .weak
  have hadd := Tally.toNat_count_add (t := rest) (k := .strong) (by rw [hstrong] at hs; exact hs)
  have htally : ((h.strengthen o).cell o).tally = rest.add .strong := by
    rw [strengthen, tally_adjust (contains_of_count (k := .weak) hw), Tally.strengthen, Tally.move,
      hrest]
  refine ⟨.adjust h o _, ?_, ?_⟩
  · rw [htally, hstrong]
    exact hadd .strong
  · rw [htally, hweak]
    exact congrArg (· + 1) (hadd .weak)

/-- **A weak release that is not the last one** takes one from the weak tally. -/
theorem release_weak_alive (hw : 0 < (h.cell o).tally.weak.toNat)
    (hmore : 1 < (h.cell o).tally.strong.toNat + (h.cell o).tally.weak.toNat) :
    (h.release o .weak).1 = false ∧ Recounts o h (h.release o .weak).2 ∧
      ((h.release o .weak).2.cell o).tally.strong = (h.cell o).tally.strong ∧
      ((h.release o .weak).2.cell o).tally.weak.toNat + 1 = (h.cell o).tally.weak.toNat ∧
      (h.release o .weak).2.journal = h.journal := by
  obtain ⟨rest, hrest, hcount⟩ := Tally.exists_takeOne? (k := .weak) hw
  have hstrong : (h.cell o).tally.strong.toNat = rest.strong.toNat := hcount .strong
  have hweak : (h.cell o).tally.weak.toNat = rest.weak.toNat + 1 := hcount .weak
  have hzero : rest.isZero = false := by
    rw [Bool.eq_false_iff]
    intro hz
    rw [Tally.isZero_iff] at hz
    have h1 : rest.strong.toNat = 0 := hz .strong
    have h2 : rest.weak.toNat = 0 := hz .weak
    omega
  have hrelease : h.release o .weak = (false, h.adjust o fun _ => rest) := by
    rw [release, letGo, hrest]
    simp [hzero]
  have htally : ((h.adjust o fun _ => rest).cell o).tally = rest :=
    tally_adjust (contains_of_count (k := .weak) hw) _
  rw [hrelease]
  refine ⟨rfl, Recounts.adjust h o fun _ => rest, ?_, ?_, rfl⟩
  · rw [htally, ← UInt32.toNat_inj, hstrong]
  · rw [htally, hweak]

/-! ### Cascades -/

/-- What is left alone by those who may release the strong references of `A`: the objects to
which there is none.  All that happens is that payloads of other objects are dropped. -/
structure Spares (A : Account) (h h' : Heap) : Prop where
  ownsStrong : h'.OwnsStrong
  cell_eq : ∀ x, A x .strong = 0 → h'.cell x = h.cell x
  unowned : ∀ x, A x .strong = 0 → h'.owned x .strong = 0
  journal : ∃ later, h'.journal.toList = h.journal.toList ++ later ∧
    ∀ m ∈ later, ∃ x, m = .payloadDropped x ∧ A x .strong ≠ 0

theorem cell_letGo_of_ne (h : Heap) (hx : x ≠ o) (k : RefKind) :
    (h.letGo o k).2.2.cell x = h.cell x := by
  rcases h.letGo_cases o k with ⟨-, he⟩ | ⟨rest, -, ⟨-, he⟩ | ⟨-, hd, he⟩⟩
  · rw [he]
  · rw [he, (Recounts.adjust h o _).others x hx]
  · have ho := contains_of_alive hd
    rw [he, cell_destroy (by rwa [contains_adjust]), if_neg hx,
      (Recounts.adjust h o _).others x hx]

theorem ownsStrong_letGo (hs : h.OwnsStrong) (o : ObjectId) (k : RefKind) :
    (h.letGo o k).2.2.OwnsStrong := by
  rcases h.letGo_cases o k with ⟨-, he⟩ | ⟨rest, -, ⟨-, he⟩ | ⟨-, hd, he⟩⟩
  · rwa [he]
  · rw [he]
    exact (Recounts.adjust h o _).ownsStrong hs
  · intro x
    have ho := contains_of_alive hd
    rw [he, cell_destroy (by rwa [contains_adjust])]
    split
    · exact onlyReleases_nil
    · exact (Recounts.adjust h o _).ownsStrong hs x

/-- **A cascade reaches an object only through a strong reference** that is released at hand
or that a payload owns. -/
theorem settle_spares {ops : List TallyOp} (hops : OnlyReleases ops) (hs : h.OwnsStrong) :
    Spares (Account.released ops + h.owned) h (h.settle ops) := by
  induction ops, h using settle_induction with
  | nil h => exact ⟨hs, fun _ _ => rfl, fun x hx => by simpa using hx, [], by simp⟩
  | cons op rest h ih =>
    obtain ⟨o, rfl⟩ := hops op List.mem_cons_self
    -- the releases that are then at hand are those of before, but for the one that is made
    have hsplit : Account.released (.release o .strong :: rest) + h.owned
        = Account.released ((h.letGo o .strong).2.1 ++ rest) + (h.letGo o .strong).2.2.owned
          + .one o .strong := by
      rw [← h.owned_letGo o .strong, Account.released_cons, Account.released_append]
      abel
    have hle : ∀ x, (Account.released (.release o .strong :: rest) + h.owned) x .strong = 0 →
        x ≠ o ∧ (Account.released ((h.letGo o .strong).2.1 ++ rest)
          + (h.letGo o .strong).2.2.owned) x .strong = 0 := by
      intro x hx
      rw [hsplit, Account.add_apply, Nat.add_eq_zero_iff] at hx
      refine ⟨?_, hx.1⟩
      rintro rfl
      simp at hx
    have hdue : OnlyReleases ((h.letGo o .strong).2.1 ++ rest) := by
      intro op hop
      rcases List.mem_append.1 hop with hop | hop
      · exact h.onlyReleases_letGo hs o .strong op hop
      · exact hops op (List.mem_cons_of_mem _ hop)
    obtain ⟨howns, hcell, hunowned, later, hjournal, hlater⟩ :=
      ih hdue (ownsStrong_letGo hs o .strong)
    rw [settle_cons]
    refine ⟨howns, fun x hx => ?_, fun x hx => hunowned x (hle x hx).2, ?_⟩
    · exact (hcell x (hle x hx).2).trans (h.cell_letGo_of_ne (hle x hx).1 .strong)
    · refine ⟨(if (h.letGo o .strong).1 = true then [.payloadDropped o] else []) ++ later, ?_, ?_⟩
      · rw [← List.append_assoc, ← h.journal_letGo o .strong]
        exact hjournal
      · intro m hm
        rcases List.mem_append.1 hm with hm | hm
        · refine ⟨o, ?_, ?_⟩
          · split at hm
            · exact List.mem_singleton.1 hm
            · cases hm
          · rw [hsplit]
            simp
        · obtain ⟨x, rfl, hx⟩ := hlater m hm
          refine ⟨x, rfl, fun h0 => hx (hle x h0).2⟩

/-- Letting the last reference go destroys the object. -/
theorem letGo_weak_last (hd : (h.cell o).isDestroyed = false)
    (hstrong : (h.cell o).tally.strong.toNat = 0) (hweak : (h.cell o).tally.weak.toNat = 1) :
    (h.letGo o .weak).1 = true ∧ ((h.letGo o .weak).2.2.cell o).tally.strong.toNat = 0 ∧
      ((h.letGo o .weak).2.2.cell o).tally.weak.toNat = 0 ∧
      ((h.letGo o .weak).2.2.cell o).isDestroyed = true := by
  have hpos : 0 < ((h.cell o).tally.count .weak).toNat := by
    show 0 < (h.cell o).tally.weak.toNat
    omega
  obtain ⟨rest, hrest, hcount⟩ := Tally.exists_takeOne? hpos
  have hs : (h.cell o).tally.strong.toNat = rest.strong.toNat := hcount .strong
  have hw : (h.cell o).tally.weak.toNat = rest.weak.toNat + 1 := hcount .weak
  have hzero : rest.isZero = true := by
    rw [Tally.isZero_iff]
    rintro (_ | _)
    · exact hs.symm.trans hstrong
    · show rest.weak.toNat = 0
      omega
  have hmade : h.contains o = true := contains_of_count hpos
  have hletGo : h.letGo o .weak = (true, (h.adjust o fun _ => rest).destroy o) := by
    rw [letGo, hrest]
    simp [hzero, hd]
  have hcell : (h.letGo o .weak).2.2.cell o = ⟨rest, none⟩ := by
    rw [hletGo, cell_destroy (by rwa [contains_adjust]), if_pos rfl]
    exact congrArg (fun t => (⟨t, none⟩ : Cell)) (tally_adjust hmade fun _ => rest)
  rw [hcell, hletGo]
  refine ⟨rfl, hs.symm.trans hstrong, ?_, rfl⟩
  show rest.weak.toNat = 0
  omega

/-- **The last weak release** drops the payload, and whatever this sets off spares the
object and the others to which no payload owns a strong reference. -/
theorem release_weak_last (hs : h.OwnsStrong) (hd : (h.cell o).isDestroyed = false)
    (ho : h.owned o .strong = 0) (hstrong : (h.cell o).tally.strong.toNat = 0)
    (hweak : (h.cell o).tally.weak.toNat = 1) :
    (h.release o .weak).1 = true ∧ (h.release o .weak).2.OwnsStrong ∧
      (∀ x, h.owned x .strong = 0 → (h.release o .weak).2.owned x .strong = 0 ∧
        (x ≠ o → (h.release o .weak).2.cell x = h.cell x)) ∧
      (((h.release o .weak).2.cell o).tally.strong.toNat = 0 ∧
        ((h.release o .weak).2.cell o).tally.weak.toNat = 0 ∧
        ((h.release o .weak).2.cell o).isDestroyed = true) ∧
      ∃ later, (h.release o .weak).2.journal.toList
          = h.journal.toList ++ .payloadDropped o :: later ∧
        ∀ m ∈ later, ∃ x, m = .payloadDropped x ∧ h.owned x .strong ≠ 0 := by
  obtain ⟨htrue, hzero⟩ := letGo_weak_last hd hstrong hweak
  have hspares := settle_spares (h.onlyReleases_letGo hs o .weak) (ownsStrong_letGo hs o .weak)
  have hjournal := h.journal_letGo o .weak
  rw [add_comm, h.owned_letGo o .weak] at hspares
  obtain ⟨howns, hcells, hunowned, later, hlater, htold⟩ := hspares
  have hrelease : h.release o .weak
      = ((h.letGo o .weak).1, (h.letGo o .weak).2.2.settle (h.letGo o .weak).2.1) := rfl
  rw [hrelease]
  refine ⟨htrue, howns, fun x hx => ⟨hunowned x hx, fun hne => ?_⟩, ?_, later, ?_, htold⟩
  · rw [hcells x hx, h.cell_letGo_of_ne hne]
  · rw [hcells o ho]
    exact hzero
  · rw [hlater, hjournal, if_pos htrue, List.append_assoc]
    rfl

end Heap
end EngineHandles
