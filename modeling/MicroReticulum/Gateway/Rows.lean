import MicroReticulum.Gateway.Table

/-!
# The rows of the neighbour table

What is found or placed for an identity, and what a sweep and a declaration leave
of the table.
-/

namespace MicroReticulum.Gateway

open Lib

variable {g : Settings} {now : Nat} {s s' : State} {id : Ident} {nbrs more : List Nbr} {i d : Nat} {a n c : Nbr}

-- ---------------------------------------------------------------------------
-- Finding and placing
-- ---------------------------------------------------------------------------

abbrev Distinct (nbrs : List Nbr) : Prop := Slots.Distinct (·.used) (·.id) nbrs

/-- A row as it is before anything is noted in it. -/
def fresh (id : Ident) : Nbr := { used := true, id := id, declared := RNSD_GW_UNKNOWN }

/-- The row that is found, or a new one where none is. -/
theorem findOrAlloc_eq_some (h : findOrAlloc id nbrs = some (i, more)) :
    ∃ n, more[i]? = some n ∧ n.used ∧ n.id = id ∧ (∀ b, more.set i b = nbrs.set i b) ∧
      (find id nbrs = some i ∧ nbrs[i]? = some n ∨ find id nbrs = none ∧ place nbrs = some i ∧ n = fresh id) := by
  unfold findOrAlloc at h
  cases hf : find id nbrs with
  | some j =>
    rw [hf] at h
    cases h
    obtain ⟨n, hn, hu, hk⟩ := Slots.find_eq_some hf
    exact ⟨n, hn, hu, hk, fun _ => rfl, .inl ⟨rfl, hn⟩⟩
  | none =>
    rw [hf] at h
    obtain ⟨j, hj, he⟩ := Option.map_eq_some_iff.1 h
    cases he
    have hlt : i < nbrs.length := by
      unfold place at hj
      cases hfree : Slots.free (·.used) nbrs with
      | some a =>
        simp only [hfree, Option.orElse_some, Option.some.injEq] at hj
        subst hj
        obtain ⟨a, ha, -⟩ := Slots.free_eq_some hfree
        exact (List.getElem?_eq_some_iff.1 ha).1
      | none =>
        simp only [hfree, Option.orElse_none] at hj
        obtain ⟨a, ha, -⟩ := Slots.victim_eq_some hj
        exact (List.getElem?_eq_some_iff.1 ha).1
    exact ⟨fresh id, List.getElem?_set_self hlt, rfl, rfl, fun b => by simp, .inr ⟨rfl, hj, rfl⟩⟩

/-- Writing the row of an identity leaves ids distinct. -/
theorem Distinct.note (hd : Distinct nbrs) (h : findOrAlloc id nbrs = some (i, more)) (hk : c.id = id) :
    Distinct (nbrs.set i c) := by
  obtain ⟨n, -, hu, hn, -, ⟨hf, hi⟩ | ⟨hf, -⟩⟩ := findOrAlloc_eq_some h
  · exact Slots.Distinct.set_same hd hi hu fun _ => hk.trans hn.symm
  · exact Slots.Distinct.set_new hd (hk ▸ hf)

theorem expire_spec (g : Settings) (now : Nat) (c : Nbr) :
    expire g now c = c ∧ (c.used → now - c.heard ≤ horizonS g) ∨
      expire g now c = { c with used := false } ∧ horizonS g < now - c.heard := by
  unfold expire
  split
  · next h => exact .inr ⟨rfl, h.2⟩
  · next h => exact .inl ⟨rfl, fun hu => not_lt.1 fun hl => h ⟨hu, hl⟩⟩

/-- A row that is in use after the sweep was so before, and is not old. -/
theorem mem_expire (h : c ∈ nbrs.map (expire g now)) (hu : c.used) : c ∈ nbrs ∧ now - c.heard ≤ horizonS g := by
  obtain ⟨a, ha, rfl⟩ := List.mem_map.1 h
  rcases expire_spec g now a with ⟨he, hage⟩ | ⟨he, -⟩
  · rw [he] at hu ⊢
    exact ⟨ha, hage hu⟩
  · rw [he] at hu
    cases hu

theorem Distinct.expire (hd : Distinct nbrs) : Distinct (nbrs.map (expire g now)) := by
  intro i j a b ha hb hua hub hk
  rw [List.getElem?_map, Option.map_eq_some_iff] at ha hb
  obtain ⟨a, ha, rfl⟩ := ha
  obtain ⟨b, hb, rfl⟩ := hb
  rcases expire_spec g now a with ⟨hea, -⟩ | ⟨hea, -⟩
  · rcases expire_spec g now b with ⟨heb, -⟩ | ⟨heb, -⟩
    · rw [hea] at hua hk
      rw [heb] at hub hk
      exact hd i j a b ha hb hua hub hk
    · rw [heb] at hub
      cases hub
  · rw [hea] at hua
    cases hua

theorem nbrs_recompute : (recompute g now s).nbrs = s.nbrs.map (expire g now) := by
  unfold recompute
  dsimp only
  split <;> rfl

theorem find_of_findOrAlloc (h : findOrAlloc id nbrs = none) : find id nbrs = none := by
  unfold findOrAlloc at h
  split at h
  · cases h
  · assumption

/-- The row that is written is the one that was found, or a new one. -/
theorem row_cases (h : findOrAlloc id nbrs = some (i, more)) (hn : more[i]? = some n) :
    n.id = id ∧ n.used ∧ (n ∈ nbrs ∨ n = fresh id) := by
  obtain ⟨n', hn', hu, hk, -, hrow⟩ := findOrAlloc_eq_some h
  cases hn.symm.trans hn'
  refine ⟨hk, hu, ?_⟩
  rcases hrow with ⟨-, hi⟩ | ⟨-, -, rfl⟩
  · exact .inl (List.mem_of_getElem? hi)
  · exact .inr rfl

theorem set_of_findOrAlloc (h : findOrAlloc id nbrs = some (i, more)) (b : Nbr) : more.set i b = nbrs.set i b := by
  obtain ⟨-, -, -, -, hset, -⟩ := findOrAlloc_eq_some h
  exact hset b

theorem getElem?_of_findOrAlloc (h : findOrAlloc id nbrs = some (i, more)) : ∃ n, more[i]? = some n := by
  obtain ⟨n, hn, -⟩ := findOrAlloc_eq_some h
  exact ⟨n, hn⟩

-- ---------------------------------------------------------------------------
-- The sweep
-- ---------------------------------------------------------------------------

theorem own_recompute : (recompute g now s).own = ownOf g (recompute g now s) (recompute g now s).nbrs := by
  unfold recompute
  dsimp only
  split
  · next h => exact h.1.symm
  · rfl

theorem uplink_recompute : (recompute g now s).uplink = s.uplink := by
  unfold recompute
  dsimp only
  split <;> rfl

/-- A row that is not old survives the sweep. -/
theorem mem_expire_of_young (hc : c ∈ nbrs) (hage : now - c.heard ≤ horizonS g) : c ∈ nbrs.map (expire g now) := by
  refine List.mem_map.2 ⟨c, hc, ?_⟩
  rcases expire_spec g now c with ⟨he, -⟩ | ⟨-, hold⟩
  · exact he
  · exact absurd hage (not_le.2 hold)

-- ---------------------------------------------------------------------------
-- A declaration
-- ---------------------------------------------------------------------------

/-- What noting a declaration of `d` makes of the table: the row has it already and is stamped,
or it is written and everything is computed anew. -/
inductive Noted (g : Settings) (now : Nat) (s : State) (id : Ident) (d : Nat) (s' : State) : Prop
  | stamped {i : Nat} {n : Nbr} (hn : s.nbrs[i]? = some n) (hu : n.used) (hid : n.id = id) (hd : n.declared = d)
      (hs : s'.nbrs = s.nbrs.set i { n with heard := now }) (ho : s'.own = s.own) (hup : s'.uplink = s.uplink)
  | written {i : Nat} {n : Nbr} (hi : i < s.nbrs.length) (hu : n.used) (hid : n.id = id)
      (hn : s.nbrs[i]? = some n ∨ find id s.nbrs = none ∧ n = fresh id)
      (hw : ∀ a, s.nbrs[i]? = some a → a.used → a.id = id ∨
        find id s.nbrs = none ∧ (∀ b ∈ s.nbrs, b.used) ∧ ∀ b ∈ s.nbrs, a.heard ≤ b.heard)
      (hs : s'.nbrs = (s.nbrs.set i { n with declared := d, heard := now }).map (expire g now))
      (ho : s'.own = ownOf g s' s'.nbrs) (hup : s'.uplink = s.uplink)

/-- The slot of a new row is free, or the whole table is in use and it was heard longest ago. -/
theorem place_spec (h : place nbrs = some i) (ha : nbrs[i]? = some a) (hu : a.used) :
    (∀ b ∈ nbrs, b.used) ∧ ∀ b ∈ nbrs, a.heard ≤ b.heard := by
  unfold place at h
  cases hfree : Slots.free (·.used) nbrs with
  | some j =>
    simp only [hfree, Option.orElse_some, Option.some.injEq] at h
    subst h
    obtain ⟨b, hb, hub⟩ := Slots.free_eq_some hfree
    cases ha.symm.trans hb
    rw [hu] at hub
    cases hub
  | none =>
    simp only [hfree, Option.orElse_none] at h
    have hfull := Slots.free_eq_none.1 hfree
    obtain ⟨b, hb, -, hmin⟩ := Slots.victim_eq_some h
    cases ha.symm.trans hb
    exact ⟨hfull, fun b hb => hmin b hb (hfull b hb)⟩

theorem findOrAlloc_ne_none (hne : nbrs ≠ []) : findOrAlloc id nbrs ≠ none := by
  unfold findOrAlloc
  split
  · exact nofun
  · rw [ne_eq, Option.map_eq_none_iff]
    unfold place
    cases hfree : Slots.free (·.used) nbrs with
    | some j => exact nofun
    | none =>
      rw [Option.orElse_none]
      intro hv
      obtain ⟨b, hb⟩ := List.exists_mem_of_ne_nil nbrs hne
      have hub := Slots.free_eq_none.1 hfree b hb
      rw [Slots.victim_eq_none.1 hv b hb] at hub
      cases hub

theorem noted (g : Settings) (now : Nat) (hne : s.nbrs ≠ []) (id : Ident) (d : Nat) :
    Noted g now s id (min d RNSD_GW_NONE) (rnsdGatewayNote g now s id d).1 := by
  unfold rnsdGatewayNote
  cases hf : findOrAlloc id s.nbrs with
  | none => exact absurd hf (findOrAlloc_ne_none hne)
  | some r =>
    obtain ⟨i, more⟩ := r
    obtain ⟨n, hn, hu, hid, hset, hrow⟩ := findOrAlloc_eq_some hf
    have hi : i < s.nbrs.length := by
      have hlen := congrArg List.length (hset n)
      rw [List.length_set, List.length_set] at hlen
      exact hlen ▸ (List.getElem?_eq_some_iff.1 hn).1
    simp only [hn, hset]
    split
    · refine .written hi hu hid ?_ ?_ nbrs_recompute own_recompute uplink_recompute
      · exact hrow.imp And.right fun h => ⟨h.1, h.2.2⟩
      · intro a ha hua
        rcases hrow with ⟨-, hin⟩ | ⟨hnone, hp, -⟩
        · cases ha.symm.trans hin
          exact .inl hid
        · exact .inr ⟨hnone, place_spec hp ha hua⟩
    · next hd =>
      rcases hrow with ⟨-, hin⟩ | ⟨-, -, rfl⟩
      · refine .stamped hin hu hid (not_not.1 hd) ?_ rfl rfl
        rw [not_not.1 hd]
      · -- a new row has declared nothing yet
        refine absurd (not_not.1 hd) (Nat.ne_of_gt (lt_of_le_of_lt (min_le_right _ _) ?_))
        exact (by decide : RNSD_GW_NONE < RNSD_GW_UNKNOWN)

end MicroReticulum.Gateway
