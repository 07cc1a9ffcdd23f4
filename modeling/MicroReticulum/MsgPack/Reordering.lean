import MicroReticulum.MsgPack.Advertisement

/-!
# Advertisements in any order

The reader takes the map's members as they come and skips those it does not
know. Every member sets a field of its own, so what has been read is told by the
keys alone.
-/

namespace MicroReticulum.MsgPack.ResourceAdvertisement

open Lib.Cursor

/-- The flag byte the constructor assembles. -/
def flagByte (e c s u p x : Bool) : Nat :=
  (if x then 1 <<< 5 else 0) ||| (if p then 1 <<< 4 else 0) ||| (if u then 1 <<< 3 else 0) |||
    (if s then 1 <<< 2 else 0) ||| (if c then 1 <<< 1 else 0) ||| (if e then 1 <<< 0 else 0)

/-- A string under any of the headers its length fits. -/
inductive StrForm (s : Bytes) : Bytes → Prop
  | fix : s.length ≤ 31 → StrForm s (.ofNat (0xa0 ||| s.length) :: s)
  | sized (tag k : Nat) : (tag, k) ∈ [(0xd9, 1), (0xda, 2), (0xdb, 4)] → s.length < 256 ^ k →
      StrForm s (.ofNat tag :: (putBe k s.length ++ s))

/-- One member of a map: its key, the key as it stands there, and the value. -/
structure Entry where
  key : Bytes
  name : Bytes
  value : Bytes

def Entry.member (x : Char × Bytes) : Entry := ⟨[x.1.toUInt8], packKey x.1, x.2⟩

def knownKeys : List Char := ['t', 'd', 'n', 'i', 'l', 'f', 'h', 'r', 'o', 'm', 'q']

/-- A member the reader has no field for. -/
structure Entry.Unknown (e : Entry) : Prop where
  key : e.key ∉ knownKeys.map ([·.toUInt8])
  name : StrForm e.key e.name
  value : Items 1 e.value

def packEntries (es : List Entry) : Bytes := es.flatMap fun e => e.name ++ e.value

def packMap (es : List Entry) : Bytes := packMapHeader es.length ++ packEntries es

variable {adv : ResourceAdvertisement} {b rest : Bytes} {e : Entry} {es extra : List Entry} {off : Nat}

-- ---------------------------------------------------------------------------
-- Keys
-- ---------------------------------------------------------------------------

theorem strForm_decodes {s : Bytes} (h : StrForm s b) : Decodes unpackStr b s := by
  intro tail hs
  cases h with
  | fix hlen =>
    obtain ⟨x, hx, hhigh, hp⟩ := fixstr_behind "MsgPack: short str payload" hlen hs
    simp only [List.cons_append, hx, unpackStr, number_head, Read.pure_bind, hhigh, if_true, hp]
    rfl
  | sized tag k htag hlen =>
    rw [List.cons_append, List.append_assoc] at hs ⊢
    simp only [List.mem_cons, Prod.mk.injEq, List.not_mem_nil, or_false] at htag
    rw [unpackStr, number_head, Read.pure_bind]
    obtain ⟨rfl, rfl⟩ | ⟨rfl, rfl⟩ | ⟨rfl, rfl⟩ := htag
    · exact form_behind _ hlen hs
    · exact form_behind _ hlen hs
    · exact form_behind _ hlen hs

-- ---------------------------------------------------------------------------
-- Fields
-- ---------------------------------------------------------------------------

/-- What has been read of an advertisement once these keys have been seen. -/
def merge (adv : ResourceAdvertisement) (keys : List Bytes) : ResourceAdvertisement :=
  let blank : ResourceAdvertisement := {}
  let seen (key : Char) : Bool := [key.toUInt8] ∈ keys
  { blank with
    t := if seen 't' then adv.t else blank.t
    d := if seen 'd' then adv.d else blank.d
    n := if seen 'n' then adv.n else blank.n
    i := if seen 'i' then adv.i else blank.i
    l := if seen 'l' then adv.l else blank.l
    f := if seen 'f' then adv.f else blank.f
    h := if seen 'h' then adv.h else blank.h
    r := if seen 'r' then adv.r else blank.r
    o := if seen 'o' then adv.o else blank.o
    m := if seen 'm' then adv.m else blank.m
    q := if seen 'q' then adv.q else blank.q }

theorem merge_nil (adv : ResourceAdvertisement) : merge adv [] = {} := rfl

theorem merge_unknown {key : Bytes} {keys : List Bytes} (h : key ∉ knownKeys.map ([·.toUInt8])) :
    merge adv (key :: keys) = merge adv keys := by
  have hne : ∀ c ∈ knownKeys, ([c.toUInt8] ∈ key :: keys ↔ [c.toUInt8] ∈ keys) := by
    intro c hc
    have hck : [c.toUInt8] ≠ key := fun he => h (he ▸ List.mem_map_of_mem hc)
    simp [List.mem_cons, hck]
  simp only [merge, hne _ (show 't' ∈ knownKeys by decide), hne _ (show 'd' ∈ knownKeys by decide),
    hne _ (show 'n' ∈ knownKeys by decide), hne _ (show 'i' ∈ knownKeys by decide),
    hne _ (show 'l' ∈ knownKeys by decide), hne _ (show 'f' ∈ knownKeys by decide),
    hne _ (show 'h' ∈ knownKeys by decide), hne _ (show 'r' ∈ knownKeys by decide),
    hne _ (show 'o' ∈ knownKeys by decide), hne _ (show 'm' ∈ knownKeys by decide),
    hne _ (show 'q' ∈ knownKeys by decide)]

/-- Once every key has been seen all but the flags has been read. -/
theorem merge_all {keys : List Bytes} (h : ∀ c ∈ knownKeys, [c.toUInt8] ∈ keys) :
    (merge adv keys).withFlags = adv.withFlags := by
  simp only [knownKeys, List.forall_mem_cons, List.not_mem_nil, false_imp_iff, implies_true, and_true] at h
  simp [merge, withFlags, h]

/-- Whatever has been read before, the member sets its field. -/
def Reads (adv : ResourceAdvertisement) (e : Entry) : Prop :=
  Decodes unpackStr e.name e.key ∧
    ∀ keys, Decodes ((merge adv keys).readField e.key) e.value (merge adv (e.key :: keys))

theorem Entry.Unknown.reads (h : e.Unknown) : Reads adv e := by
  refine ⟨strForm_decodes h.name, fun keys => ?_⟩
  have hskip := into_decodes (fun _ => merge adv keys) (items_one.1 h.value).skips
  have hkey := h.key
  simp only [knownKeys, List.map_cons, List.map_nil, List.mem_cons, List.not_mem_nil, or_false, not_or] at hkey
  rw [merge_unknown h.key, readField]
  simp only [hkey, if_false]
  exact hskip

/-- Each of the eleven keys sets a field of its own. -/
theorem Sized.reads (h : adv.Sized) : ∀ x ∈ adv.members, Reads adv (.member x) := by
  have huint : ∀ v < 2 ^ 32, ∀ set : Nat → ResourceAdvertisement,
      Decodes (into unpackUint fun w => set (w % 2 ^ 32)) (packUint v) (set v) := by
    intro v hv set
    have hd := into_decodes (fun w => set (w % 2 ^ 32)) (packUint_decodes (v := v) (by omega))
    rwa [Nat.mod_eq_of_lt hv] at hd
  have hflags : ∀ set : Nat → ResourceAdvertisement,
      Decodes (into unpackUint fun w => set (w % 2 ^ 8)) (packUint adv.f) (set adv.f) := by
    intro set
    have hf := h.f
    have hd := into_decodes (fun w => set (w % 2 ^ 8)) (packUint_decodes (v := adv.f) (by omega))
    rwa [Nat.mod_eq_of_lt hf] at hd
  have hbin : ∀ (v : Bytes) (set : Bytes → ResourceAdvertisement),
      Decodes (into unpackBin set) (packBin v) (set v) := fun v set => into_decodes set (packBin_decodes v)
  have hnil : ∀ (v : Bytes) (set : Bytes → ResourceAdvertisement),
      Decodes (into readBinOrNil set) (packBinOrNil v) (set v) := fun v set => into_decodes set (binOrNil_decodes v)
  intro x hx
  refine ⟨packKey_decodes x.1, fun keys => ?_⟩
  have hset : ∀ {r : Reader ResourceAdvertisement} {v : Bytes} {set next : ResourceAdvertisement},
      Decodes r v set → set = next → Decodes r v next := fun hd he => he ▸ hd
  simp only [ResourceAdvertisement.members, List.mem_cons, List.not_mem_nil, or_false] at hx
  rcases hx with rfl | rfl | rfl | rfl | rfl | rfl | rfl | rfl | rfl | rfl | rfl
  · exact hset (huint _ h.t fun w => { merge adv keys with t := w }) (by simp +decide [merge, Entry.member])
  · exact hset (huint _ h.d fun w => { merge adv keys with d := w }) (by simp +decide [merge, Entry.member])
  · exact hset (huint _ h.n fun w => { merge adv keys with n := w }) (by simp +decide [merge, Entry.member])
  · exact hset (hbin _ fun w => { merge adv keys with h := w }) (by simp +decide [merge, Entry.member])
  · exact hset (hbin _ fun w => { merge adv keys with r := w }) (by simp +decide [merge, Entry.member])
  · exact hset (hbin _ fun w => { merge adv keys with o := w }) (by simp +decide [merge, Entry.member])
  · exact hset (huint _ h.i fun w => { merge adv keys with i := w }) (by simp +decide [merge, Entry.member])
  · exact hset (huint _ h.l fun w => { merge adv keys with l := w }) (by simp +decide [merge, Entry.member])
  · exact hset (hnil _ fun w => { merge adv keys with q := w }) (by simp +decide [merge, Entry.member])
  · exact hset (hflags fun w => { merge adv keys with f := w }) (by simp +decide [merge, Entry.member])
  · exact hset (hbin _ fun w => { merge adv keys with m := w }) (by simp +decide [merge, Entry.member])

-- ---------------------------------------------------------------------------
-- Entry by entry
-- ---------------------------------------------------------------------------

theorem perform_entries (hes : ∀ e ∈ es, Reads adv e) (keys : List Bytes) (hat : At b off (packEntries es ++ rest))
    (hs : b.length < SIZE) :
    ∃ off' seen, perform (entry b) (List.replicate es.length ()) (merge adv keys, off) =
      .ok true (merge adv seen, off') ∧ ∀ key, key ∈ seen ↔ key ∈ keys ∨ key ∈ es.map (·.key) := by
  induction es generalizing keys off with
  | nil => exact ⟨off, keys, rfl, by simp⟩
  | cons e es ih =>
    obtain ⟨⟨hname, hvalue⟩, hes⟩ := List.forall_mem_cons.1 hes
    have hsplit : packEntries (e :: es) ++ rest = e.name ++ (e.value ++ (packEntries es ++ rest)) := by
      simp [packEntries]
    rw [hsplit] at hat
    obtain ⟨hkey, hat⟩ := hat.consume hname hs
    obtain ⟨hfield, hat⟩ := hat.consume (hvalue keys) hs
    obtain ⟨off', seen, hrest, hseen⟩ := ih hes (e.key :: keys) hat
    refine ⟨off', seen, ?_, fun key => ?_⟩
    · rw [List.length_cons, List.replicate_succ, perform_cons, entry, hkey, Read.ok_bind]
      dsimp only
      rw [hfield, Read.ok_bind, hrest]
    · rw [hseen, List.map_cons, List.mem_cons, List.mem_cons]
      tauto

/-- The members of an advertisement and others, in any order. -/
def Extends (adv : ResourceAdvertisement) (es : List Entry) : Prop :=
  ∃ extra : List Entry, (∀ e ∈ extra, e.Unknown) ∧ es.Perm (adv.members.map .member ++ extra)

theorem Extends.reads (h : Extends adv es) (hsized : adv.Sized) : ∀ e ∈ es, Reads adv e := by
  obtain ⟨extra, hextra, hperm⟩ := h
  intro e he
  rcases List.mem_append.1 (hperm.subset he) with he | he
  · obtain ⟨x, hx, rfl⟩ := List.mem_map.1 he
    exact hsized.reads x hx
  · exact (hextra e he).reads

theorem Extends.keys (h : Extends adv es) : ∀ c ∈ knownKeys, [c.toUInt8] ∈ es.map (·.key) := by
  obtain ⟨extra, -, hperm⟩ := h
  intro c hc
  have hmem : c ∈ adv.members.map Prod.fst := by
    have hfst : adv.members.map Prod.fst = ['t', 'd', 'n', 'h', 'r', 'o', 'i', 'l', 'q', 'f', 'm'] := rfl
    have hall : (knownKeys.all fun c => ['t', 'd', 'n', 'h', 'r', 'o', 'i', 'l', 'q', 'f', 'm'].contains c) = true := by
      decide
    rw [hfst]
    exact List.contains_iff_mem.1 (List.all_eq_true.1 hall c hc)
  obtain ⟨x, hx, rfl⟩ := List.mem_map.1 hmem
  refine (hperm.map (·.key)).symm.subset ?_
  rw [List.map_append, List.map_map]
  exact List.mem_append_left _ (List.mem_map.2 ⟨x, hx, rfl⟩)

theorem unpack_extends (h : Extends adv es) (hsized : adv.Sized) (hcount : es.length < 2 ^ 32)
    (hs : (packMap es).length < SIZE) : unpack (packMap es) = .ok true adv.withFlags := by
  have hat := ((At.start (packMap es)).consume (packMapHeader_decodes hcount) hs).2
  rw [← List.append_nil (packEntries es)] at hat
  obtain ⟨off', seen, hread, hseen⟩ := perform_entries (h.reads hsized) [] hat hs
  rw [Nat.zero_add] at hread
  have hmap : unpackMapHeader (packMap es) = .ok true (es.length, (packMapHeader es.length).length) :=
    packMapHeader_decodes hcount _ hs
  rw [unpack, hmap, Read.ok_bind]
  dsimp only
  rw [← merge_nil adv, hread, Read.ok_bind]
  dsimp only
  rw [merge_all fun c hc => (hseen _).2 (.inr (h.keys c hc))]
  rfl

-- ---------------------------------------------------------------------------
-- The flags
-- ---------------------------------------------------------------------------

/-- The low bits of a byte are the flags they are read as. -/
theorem flagByte_iff (f : Nat) (e c s u p x : Bool) :
    (f.testBit 0 = e ∧ f.testBit 1 = c ∧ f.testBit 2 = s ∧ f.testBit 3 = u ∧ f.testBit 4 = p ∧ f.testBit 5 = x) ↔
      f % 64 = flagByte e c s u p x := by
  have hbit : ∀ i < 6, f.testBit i = (f % 64).testBit i := by
    intro i hi
    rw [show 64 = 2 ^ 6 from rfl, Nat.testBit_mod_two_pow, decide_eq_true hi, Bool.true_and]
  have hflags : ∀ e c s u p x : Bool, (flagByte e c s u p x).testBit 0 = e ∧ (flagByte e c s u p x).testBit 1 = c ∧
      (flagByte e c s u p x).testBit 2 = s ∧ (flagByte e c s u p x).testBit 3 = u ∧
      (flagByte e c s u p x).testBit 4 = p ∧ (flagByte e c s u p x).testBit 5 = x := by decide
  have hbyte : ∀ g < 64, flagByte (g.testBit 0) (g.testBit 1) (g.testBit 2) (g.testBit 3) (g.testBit 4)
      (g.testBit 5) = g := by decide
  rw [hbit 0 (by decide), hbit 1 (by decide), hbit 2 (by decide), hbit 3 (by decide), hbit 4 (by decide),
    hbit 5 (by decide)]
  constructor
  · rintro ⟨rfl, rfl, rfl, rfl, rfl, rfl⟩
    exact (hbyte _ (Nat.mod_lt _ (by decide))).symm
  · intro hf
    rw [hf]
    exact hflags e c s u p x

/-- An advertisement is read back as it is exactly if its flags are those of its flag byte. -/
theorem withFlags_eq_self :
    adv.withFlags = adv ↔ adv.f % 64 = flagByte adv.e adv.c adv.s adv.u adv.p adv.x := by
  rw [← flagByte_iff]
  obtain ⟨t, d, n, i, l, f, h, r, o, m, q, e, c, s, u, p, x⟩ := adv
  simp [withFlags]

/-- What is packed is read back, its flags from the flag byte; and so it is from
the members in any order, among any others the reader does not know. -/
theorem unpack_any_order (h : adv.Sized) :
    (adv.pack.length < SIZE → unpack adv.pack = .ok true adv.withFlags) ∧
      (adv.withFlags = adv ↔ adv.f % 64 = flagByte adv.e adv.c adv.s adv.u adv.p adv.x) ∧
      ∀ es, Extends adv es → es.length < 2 ^ 32 → (packMap es).length < SIZE →
        unpack (packMap es) = .ok true adv.withFlags :=
  ⟨fun hs => unpack_pack h hs, withFlags_eq_self, fun _ he hcount hs => unpack_extends he h hcount hs⟩

/-- A request of 300 bytes; its members backwards, and between them a member under two letters. -/
def request₀ : ResourceAdvertisement := { t := 300, d := 300, n := 1, h := [1, 2], q := [3], f := 9, e := true, u := true }

def version : Entry := ⟨[0x76, 0x72], [0xd9, 0x02, 0x76, 0x72], [0x92, 0xc0, 0x07]⟩

theorem unpack_any_order_backwards :
    unpack (packMap (((request₀.members.map .member).reverse.take 4) ++ version ::
      (request₀.members.map .member).reverse.drop 4)) = .ok true request₀ := by
  have hsized : request₀.Sized := ⟨by decide, by decide, by decide, by decide, by decide, by decide⟩
  obtain ⟨-, hflags, hany⟩ := unpack_any_order hsized
  have hversion : version.Unknown :=
    ⟨by decide, .sized 0xd9 1 (by simp) (by decide),
      items_one.2 ((Value.array (.cons .nil (.cons (.uint 7) .nil))).whole (by decide))⟩
  have hext : Extends request₀ (((request₀.members.map .member).reverse.take 4) ++ version ::
      (request₀.members.map .member).reverse.drop 4) := by
    refine ⟨[version], by simpa using hversion, ?_⟩
    refine List.perm_middle.trans ((List.Perm.cons _ ?_).trans (List.perm_append_singleton _ _).symm)
    rw [List.take_append_drop]
    exact List.reverse_perm _
  have hread := hany _ hext (by decide) (by decide +kernel)
  rw [hflags.2 (by decide)] at hread
  exact hread

/-- An extension under an unknown key makes the whole map unreadable. -/
def stamped : Entry := ⟨[0x7a], [0xa1, 0x7a], [0xd4, 0x01, 0x02]⟩

theorem extension_member :
    unpack (packMap ((({} : ResourceAdvertisement).members.map .member) ++ [stamped])) =
      .fail "MsgPack: unknown tag in skip" ∧
    ¬ ∀ (adv : ResourceAdvertisement) (es extra : List Entry), adv.Sized →
      (∀ e ∈ extra, e.key ∉ knownKeys.map ([·.toUInt8]) ∧ StrForm e.key e.name ∧
        (Items 1 e.value ∨ IsExtension e.value)) →
      es.Perm (adv.members.map .member ++ extra) → es.length < 2 ^ 32 → (packMap es).length < SIZE →
        unpack (packMap es) = .ok true adv.withFlags := by
  have hfail : unpack (packMap ((({} : ResourceAdvertisement).members.map .member) ++ [stamped])) =
      .fail "MsgPack: unknown tag in skip" := by decide +kernel
  refine ⟨hfail, fun h => ?_⟩
  have hsized : ({} : ResourceAdvertisement).Sized := ⟨by decide, by decide, by decide, by decide, by decide, by decide⟩
  have hstamped : ∀ e ∈ [stamped], e.key ∉ knownKeys.map ([·.toUInt8]) ∧ StrForm e.key e.name ∧
      (Items 1 e.value ∨ IsExtension e.value) := by
    intro e he
    rw [List.mem_singleton.1 he]
    exact ⟨by decide, .fix (by decide), .inr (.inl ⟨(0xd4, 1), by simp, rfl, rfl⟩)⟩
  have hread := h {} _ [stamped] hsized hstamped (.refl _) (by decide) (by decide +kernel)
  rw [hfail] at hread
  cases hread

end MicroReticulum.MsgPack.ResourceAdvertisement
