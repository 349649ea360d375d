/-
# A handle table is a map whose keys are never used again

The map (`Lending`) keeps what is lent out, each value under its handle, and remembers
all handles that it ever lent out.  It says of a new handle only that it is none of them,
and not zero (`Lending.Serves`).

`HandleTable.Lends` is what holds between the table and the map: the same is found under
every handle, stale and forged ones too, and each handle remembered is one that the table
has lent out.  One operation keeps it (`Lends.call`), so a run does (`Lends.run`), as long
as the table is not asked for more entries than there are indices.  A run from the empty
table is then one of the map (`run_refines_map`).
-/

import EngineHandles.Proofs.Lending.Table
import EngineHandles.Proofs.Keyed

namespace EngineHandles

variable {α : Type}

/-- One operation on a handle table. -/
inductive TableCall (α : Type) where
  | insert (v : α)
  | get (handle : UInt64)
  | remove (handle : UInt64)
deriving DecidableEq, Repr

/-- Whether an operation lends out a handle. -/
def TableCall.isInsert : TableCall α → Bool
  | .insert _ => true
  | _ => false

/-- What an operation answers. -/
inductive TableReply (α : Type) where
  | lent (handle : UInt64)
  | value (found : Option α)
deriving DecidableEq, Repr

namespace HandleTable

/-- Serves one operation. -/
def call (t : HandleTable α) : TableCall α → TableReply α × HandleTable α
  | .insert v => let (h, t') := t.insert v; (.lent h, t')
  | .get h => (.value (t.get? h), t)
  | .remove h => let (v, t') := t.remove h; (.value v, t')

/-- Serves one operation after the other. -/
def run (t : HandleTable α) : List (TableCall α) → List (TableReply α) × HandleTable α
  | [] => ([], t)
  | c :: cs =>
    let (r, t') := t.call c
    let (rs, t'') := t'.run cs
    (r :: rs, t'')

end HandleTable

/-- What is lent out now, and the handles ever lent out. -/
structure Lending (α : Type) where
  live : List (UInt64 × α) := []
  issued : List UInt64 := []

namespace Lending

/-- The value lent out under a handle. -/
def find? (L : Lending α) (h : UInt64) : Option α := (L.live.find? fun e => e.1 == h).map Prod.snd

/-- How the map answers an operation: a handle that it lends out is any that is new. -/
inductive Serves (L : Lending α) : TableCall α → TableReply α → Lending α → Prop
  | insert {h : UInt64} (v : α) (hzero : h ≠ 0) (hnew : h ∉ L.issued) :
    Serves L (.insert v) (.lent h) ⟨(h, v) :: L.live, h :: L.issued⟩
  | get (h : UInt64) : Serves L (.get h) (.value (L.find? h)) L
  | remove (h : UInt64) :
    Serves L (.remove h) (.value (L.find? h)) { L with live := L.live.filter fun e => e.1 != h }

/-- How the map answers one operation after the other. -/
inductive Run : Lending α → List (TableCall α) → List (TableReply α) → Lending α → Prop
  | nil (L : Lending α) : Run L [] [] L
  | cons {L L' L'' : Lending α} {c : TableCall α} {r : TableReply α} {cs : List (TableCall α)}
      {rs : List (TableReply α)} (head : Serves L c r L') (tail : Run L' cs rs L'') :
    Run L (c :: cs) (r :: rs) L''

variable {L : Lending α} {h k : UInt64} {v : α}

theorem find?_eq_none_iff : L.find? h = none ↔ h ∉ L.live.map Prod.fst := by
  rw [find?, Option.map_eq_none_iff, List.find?_eq_none, List.mem_map]
  constructor
  · rintro hnone ⟨e, he, rfl⟩
    exact hnone e he (beq_self_eq_true _)
  · rintro hno e he hk
    exact hno ⟨e, he, eq_of_beq hk⟩

theorem find?_cons (issued : List UInt64) :
    find? ⟨(k, v) :: L.live, issued⟩ h = if h = k then some v else L.find? h := by
  rw [find?, List.find?_cons]
  by_cases hk : h = k
  · rw [if_pos hk, hk]
    simp
  · rw [if_neg hk, beq_false_of_ne fun hh => hk hh.symm, find?]

theorem find?_filter_ne (issued : List UInt64) :
    find? ⟨L.live.filter fun e => e.1 != k, issued⟩ h = if h = k then none else L.find? h := by
  rw [find?]
  dsimp only
  rw [Keyed.find?_filter_ne]
  split
  · rfl
  · rfl

/-- Under a handle under which nothing is lent out, nothing is taken out. -/
theorem filter_ne_of_find? (hv : L.find? h = none) :
    (L.live.filter fun e => e.1 != h) = L.live := by
  refine List.filter_eq_self.2 fun e he => bne_iff_ne.2 ?_
  rintro rfl
  exact find?_eq_none_iff.1 hv (List.mem_map_of_mem he)

/-- Under a handle under which something is lent out, one value is taken out. -/
theorem length_filter_ne (hnd : (L.live.map Prod.fst).Nodup) (hv : L.find? h = some v) :
    (L.live.filter fun e => e.1 != h).length + 1 = L.live.length := by
  obtain ⟨e, he, -⟩ := Option.map_eq_some_iff.1 hv
  obtain ⟨pre, post, hsplit, hkey, hpre, hpost⟩ := Keyed.exists_split hnd he
  rw [hsplit, Keyed.filter_split Prod.fst hkey hpre hpost]
  simp only [List.length_append, List.length_cons]
  omega

end Lending

/-- The table lends out what the map says. -/
structure HandleTable.Lends (t : HandleTable α) (L : Lending α) : Prop where
  wellFormed : t.WellFormed
  distinct : (L.live.map Prod.fst).Nodup
  get?_eq : ∀ h, t.get? h = L.find? h
  lent_eq : t.lent = L.live.length
  hasLent : ∀ h ∈ L.issued, t.HasLent h
  size_entries_le : t.entries.size ≤ L.issued.length

namespace HandleTable
namespace Lends

variable {t : HandleTable α} {L : Lending α}

theorem empty : ({} : HandleTable α).Lends {} where
  wellFormed := .empty
  distinct := List.nodup_nil
  get?_eq h := by
    refine get?_of_noEntry ?_
    rw [entry?_eq_none_iff]
    exact Nat.zero_le _
  lent_eq := rfl
  hasLent := List.forall_mem_nil _
  size_entries_le := Nat.le_refl _

theorem insert (hl : t.Lends L) (hroom : L.issued.length < UInt32.size) (v : α) :
    (t.insert v).2.Lends ⟨((t.insert v).1, v) :: L.live, (t.insert v).1 :: L.issued⟩ := by
  have hw := hl.wellFormed
  have hroom' : t.entries.size < UInt32.size := Nat.lt_of_le_of_lt hl.size_entries_le hroom
  refine ⟨hw.insert hroom' v, ?_, fun h => ?_, ?_, fun h hh => ?_, ?_⟩
  · rw [List.map_cons, List.nodup_cons, ← Lending.find?_eq_none_iff, ← hl.get?_eq]
    refine ⟨?_, hl.distinct⟩
    -- a handle under which something is found was lent out before
    rw [Option.eq_none_iff_forall_ne_some]
    intro u hu
    exact not_hasLent_insert hw hroom' v (hasLent_of_get? hu)
  · rw [get?_insert hw hroom', Lending.find?_cons, hl.get?_eq]
  · rw [lent_insert hw, hl.lent_eq]
    rfl
  · rcases List.mem_cons.1 hh with rfl | hh
    · exact hasLent_of_get? (v := v) (by rw [get?_insert hw hroom', if_pos rfl])
    · exact (hl.hasLent h hh).insert hw hroom' v
  · exact Nat.le_trans (size_entries_insert_le t v) (Nat.succ_le_succ hl.size_entries_le)

theorem remove (hl : t.Lends L) (h : UInt64) :
    (t.remove h).2.Lends { L with live := L.live.filter fun e => e.1 != h } := by
  refine ⟨hl.wellFormed.remove h, ?_, fun h' => ?_, ?_, fun h' hh => ?_, ?_⟩
  · exact hl.distinct.sublist (List.filter_sublist.map Prod.fst)
  · rw [get?_remove, Lending.find?_filter_ne, hl.get?_eq]
  · cases hv : t.get? h with
    | none =>
      rw [remove_of_get?_eq_none hv, Lending.filter_ne_of_find? (hl.get?_eq h ▸ hv)]
      exact hl.lent_eq
    | some v =>
      have hless := Lending.length_filter_ne hl.distinct (hl.get?_eq h ▸ hv)
      have hlent := lent_remove hv
      rw [hl.lent_eq] at hlent
      exact Nat.succ.inj (hlent.trans hless.symm)
  · exact (hl.hasLent h' hh).remove hl.wellFormed h
  · rw [size_entries_remove]
    exact hl.size_entries_le

/-- **One operation** is one of the map. -/
theorem call (hl : t.Lends L) (c : TableCall α)
    (hroom : c.isInsert = true → L.issued.length < UInt32.size) :
    ∃ L', L.Serves c (t.call c).1 L' ∧ (t.call c).2.Lends L' ∧
      L'.issued.length = L.issued.length + c.isInsert.toNat := by
  cases c with
  | insert v =>
    have hroom' : t.entries.size < UInt32.size :=
      Nat.lt_of_le_of_lt hl.size_entries_le (hroom rfl)
    refine ⟨_, .insert v (insert_ne_zero hl.wellFormed hroom' v) ?_, hl.insert (hroom rfl) v, rfl⟩
    exact fun hmem => not_hasLent_insert hl.wellFormed hroom' v (hl.hasLent _ hmem)
  | get h =>
    refine ⟨L, ?_, hl, rfl⟩
    rw [HandleTable.call, hl.get?_eq]
    exact .get h
  | remove h =>
    refine ⟨_, ?_, hl.remove h, rfl⟩
    have hreply : (t.remove h).1 = t.get? h := by
      cases hv : t.get? h with
      | none => rw [remove_of_get?_eq_none hv]
      | some v => rw [remove_of_get? hv]
    rw [HandleTable.call]
    dsimp only
    rw [hreply, hl.get?_eq]
    exact .remove h

/-- **A run** is one of the map, as long as there are indices left. -/
theorem run (hl : t.Lends L) (calls : List (TableCall α))
    (hroom : L.issued.length + calls.countP TableCall.isInsert ≤ UInt32.size) :
    ∃ L', L.Run calls (t.run calls).1 L' ∧ (t.run calls).2.Lends L' := by
  induction calls generalizing t L with
  | nil => exact ⟨L, .nil L, hl⟩
  | cons c cs ih =>
    rw [List.countP_cons] at hroom
    obtain ⟨L', hserves, hl', hissued⟩ := hl.call c fun hc => by
      rw [if_pos hc] at hroom
      omega
    have hroom' : L'.issued.length + cs.countP TableCall.isInsert ≤ UInt32.size := by
      rw [hissued]
      cases hc : c.isInsert with
      | true =>
        rw [hc, if_pos rfl] at hroom
        rw [Bool.toNat_true]
        omega
      | false =>
        rw [hc] at hroom
        exact hroom
    obtain ⟨L'', hrun, hl''⟩ := ih hl' hroom'
    exact ⟨L'', .cons hserves hrun, hl''⟩

end Lends

/-- **A handle table refines a map whose keys are never used again.**  In every run from
the empty table that lends out at most `2 ^ 32` handles, whatever handles it is asked for,
a handle lent out is not zero and was not lent out before, and what is found under a
handle, or given back for it, is what was lent out under it and not given back since.  At
the end the same is found under every handle as in the map, a handle under which nothing is
lent out gives nothing back and changes nothing, and the size of the table is the number of
handles under which something is lent out. -/
theorem run_refines_map (calls : List (TableCall α))
    (hfew : calls.countP TableCall.isInsert ≤ UInt32.size) :
    let (replies, t) := ({} : HandleTable α).run calls
    ∃ L, Lending.Run {} calls replies L ∧ (∀ h, t.get? h = L.find? h) ∧
      (∀ h, L.find? h = none → t.remove h = (none, t)) ∧
      (L.live.map Prod.fst).Nodup ∧ t.size = L.live.length := by
  obtain ⟨L, hrun, hl⟩ := Lends.empty.run calls (by rwa [List.length_nil, Nat.zero_add])
  refine ⟨L, hrun, hl.get?_eq, fun h hh => ?_, hl.distinct, ?_⟩
  · exact remove_of_get?_eq_none ((hl.get?_eq h).trans hh)
  · rw [size_eq_lent hl.wellFormed, hl.lent_eq]

/-- An entry is lent out a second time: the stale handle finds nothing and gives nothing
back, nor does a forged one that names a generation to come. -/
theorem run_refines_map_reused :
    let calls : List (TableCall Nat) := [.insert 5, .remove (pack 0 1), .insert 6,
      .remove (pack 0 1), .get (pack 0 1), .get (pack 0 2), .get (pack 0 3)]
    calls.countP TableCall.isInsert ≤ UInt32.size ∧
      ∃ L, Lending.Run {} calls [.lent 1, .value (some 5), .lent 2, .value none, .value none,
        .value (some 6), .value none] L ∧ L.live.length = 1 := by
  intro calls
  have hfew : calls.countP TableCall.isInsert ≤ UInt32.size := by decide
  obtain ⟨L, hrun, -, -, -, hsize⟩ := run_refines_map calls hfew
  exact ⟨hfew, L, hrun, hsize.symm⟩

end HandleTable
end EngineHandles
