import LoxWebsocket.Framework.Fixed
import LoxWebsocket.Proto.Texts

/-!
# Daytimer and weather tables

Both are written as a header, the number of entries and the entries
(`encodeTable`), with encodings of a fixed size for the header and the entry
(`Wire`). `walkCounted` is the walker of such tables: of tables cut at any byte it
gives those that are complete (`walkCounted_take`), and what it finds in a payload of
any content is what the payload starts with, up to where no table can be split off
(`walkCounted_append`). `walkDaytimers` and `walkWeather` are two cases of it.

`walkDaytimerRaw` reports the tables and their entries one by one
(`walkDaytimerRaw_eq`). The walkers with the checks of the source against overflow
and short slices give the same (`walkCountedChecked_eq`).
-/

namespace Lox

/-! ## Fields -/

theorem leNat_append (a b : Bytes) : leNat (a ++ b) = leNat a + 256 ^ a.length * leNat b := by
  induction a with
  | nil => simp [leNat]
  | cons x a ih =>
    have hcons (l : Bytes) : leNat (x :: l) = x.toNat + 256 * leNat l := rfl
    rw [List.cons_append, hcons, hcons, ih, List.length_cons, Nat.pow_succ', Nat.mul_add, Nat.mul_assoc, Nat.add_assoc]

/-- A number in eight bytes, the lowest first. -/
def le32Pair (n : Nat) : Bytes := le32 (n % 2 ^ 32) ++ le32 (n / 2 ^ 32)

theorem length_le32 (n : Nat) : (le32 n).length = 4 := rfl

theorem leNat_le32Pair {n : Nat} (h : n < 2 ^ 64) : leNat (le32Pair n) = n := by
  rw [le32Pair, leNat_append, leNat_le32 (by omega), leNat_le32 (by omega), length_le32]
  omega

theorem le32Pair_leNat {b : Bytes} (h : b.length = 8) : le32Pair (leNat b) = b ∧ leNat b < 2 ^ 64 := by
  have hlow := le32_leNat (b := b.take 4) (by rw [List.length_take]; omega)
  have hhigh := le32_leNat (b := b.drop 4) (by rw [List.length_drop]; omega)
  have hsum : leNat b = leNat (b.take 4) + 2 ^ 32 * leNat (b.drop 4) := by
    have happend := leNat_append (b.take 4) (b.drop 4)
    rw [List.take_append_drop, List.length_take, h] at happend
    exact happend
  refine ⟨?_, by omega⟩
  rw [le32Pair, hsum, Nat.add_mul_mod_self_left, Nat.mod_eq_of_lt hlow.2, Nat.add_mul_div_left _ _ (by decide),
    Nat.div_eq_of_lt hlow.2, Nat.zero_add, hlow.1, hhigh.1, List.take_append_drop]

namespace Wire

def u32 : Fixed UInt32 where
  size := 4
  encode x := le32 x.toNat
  decode b := u32At b 0
  length_encode x := rfl
  decode_encode x rest := by
    have hslice : slice (le32 x.toNat ++ rest) 0 4 = le32 x.toNat := List.take_left' (length_le32 _)
    rw [u32At, hslice, leNat_le32 x.toNat_lt, UInt32.ofNat_toNat]
  encode_decode b h := by
    have hslice := le32_leNat (length_slice (show 0 + 4 ≤ b.length by omega))
    rw [u32At, UInt32.toNat_ofNat', Nat.mod_eq_of_lt hslice.2, hslice.1]
    rfl

def i32 : Fixed Int32 := u32.map ⟨UInt32.toInt32, Int32.toUInt32, fun _ => rfl, fun _ => rfl⟩

def f64 : Fixed UInt64 where
  size := 8
  encode x := le32Pair x.toNat
  decode b := f64At b 0
  length_encode x := rfl
  decode_encode x rest := by
    have hslice : slice (le32Pair x.toNat ++ rest) 0 8 = le32Pair x.toNat := List.take_left' rfl
    rw [f64At, hslice, leNat_le32Pair x.toNat_lt, UInt64.ofNat_toNat]
  encode_decode b h := by
    have hslice := le32Pair_leNat (length_slice (show 0 + 8 ≤ b.length by omega))
    rw [f64At, UInt64.toNat_ofNat', Nat.mod_eq_of_lt hslice.2, hslice.1]
    rfl

def uuid : Fixed LoxoneUuid where
  size := 16
  encode u := u.toList
  decode b := uuidAt b 0
  length_encode u := Vector.length_toList
  decode_encode u rest := uuidAt_eq [] rfl
  encode_decode b h := by
    rw [toList_uuidAt (by omega)]
    rfl

def daytimerHeader : Fixed (LoxoneUuid × UInt64) := uuid.pair f64

def weatherHeader : Fixed (LoxoneUuid × UInt32) := uuid.pair u32

def daytimerEntry : Fixed DaytimerEntry :=
  (i32.pair (i32.pair (i32.pair (i32.pair f64)))).map
    { toFun := fun (mode, fromMinutes, toMinutes, needActivate, value) =>
        ⟨mode, fromMinutes, toMinutes, needActivate, value⟩
      invFun := fun e => (e.mode, e.fromMinutes, e.toMinutes, e.needActivate, e.value)
      left_inv := fun _ => rfl
      right_inv := fun _ => rfl }

def weatherEntry : Fixed WeatherEntry :=
  (i32.pair (i32.pair (i32.pair (i32.pair (i32.pair
    (f64.pair (f64.pair (f64.pair (f64.pair (f64.pair f64)))))))))).map
    { toFun := fun (timestamp, weatherType, windDirection, solarRadiation, relativeHumidity, temperature,
          perceivedTemperature, dewPoint, precipitation, windSpeed, barometricPressure) =>
        ⟨timestamp, weatherType, windDirection, solarRadiation, relativeHumidity, temperature,
          perceivedTemperature, dewPoint, precipitation, windSpeed, barometricPressure⟩
      invFun := fun e => (e.timestamp, e.weatherType, e.windDirection, e.solarRadiation, e.relativeHumidity,
        e.temperature, e.perceivedTemperature, e.dewPoint, e.precipitation, e.windSpeed, e.barometricPressure)
      left_inv := fun _ => rfl
      right_inv := fun _ => rfl }

theorem i32_decode (b : Bytes) : i32.decode b = i32At b 0 := rfl

theorem i32At_drop (b : Bytes) (k offset : Nat) : i32At (b.drop k) offset = i32At b (k + offset) := by
  rw [i32At, i32At, u32At, u32At, slice, slice, List.drop_drop]

theorem f64At_drop (b : Bytes) (k offset : Nat) : f64At (b.drop k) offset = f64At b (k + offset) := by
  rw [f64At, f64At, slice, slice, List.drop_drop]

theorem daytimerEntry_decode (b : Bytes) : daytimerEntry.decode b =
    ⟨i32At b 0, i32At b 4, i32At b 8, i32At b 12, f64At b 16⟩ := by
  change DaytimerEntry.mk (i32At b 0) (i32At (b.drop 4) 0) (i32At ((b.drop 4).drop 4) 0)
    (i32At (((b.drop 4).drop 4).drop 4) 0) (f64At ((((b.drop 4).drop 4).drop 4).drop 4) 0) = _
  simp only [i32At_drop, f64At_drop, List.drop_drop]

theorem weatherEntry_decode (b : Bytes) : weatherEntry.decode b =
    ⟨i32At b 0, i32At b 4, i32At b 8, i32At b 12, i32At b 16, f64At b 20, f64At b 28, f64At b 36, f64At b 44,
      f64At b 52, f64At b 60⟩ := by
  simp only [weatherEntry, Fixed.map, Fixed.pair, i32_decode, Equiv.coe_fn_mk, List.drop_drop, i32At_drop]
  simp only [i32, u32, f64, Fixed.map, f64At_drop]

end Wire

/-! ## Tables -/

section Counted

variable {η ε : Type} (hdr : Fixed η) (ent : Fixed ε)

/-- The header fields, the number of entries and the entries. -/
def encodeTable (t : η × List ε) : Bytes := hdr.encode t.1 ++ (le32 t.2.length ++ ent.encodeAll t.2)

def encodeTables (ts : List (η × List ε)) : Bytes := ts.flatMap (encodeTable hdr ent)

def decodeTable (t : Bytes × Bytes) : η × List ε :=
  (hdr.decode t.1, ent.decodeAll (t.2.length / ent.size) t.2)

/-- The tables of a payload: the number of entries is the last field of a header. -/
def walkCounted (payload : Bytes) : List (η × List ε) :=
  (walkTables (hdr.size + 4) hdr.size ent.size (payload.length + 1) payload).map (decodeTable hdr ent)

end Counted

/-- A field that lies within a prefix is read from it. -/
theorem i32At_take {b : Bytes} {n offset : Nat} (h : offset + 4 ≤ n) : i32At (b.take n) offset = i32At b offset := by
  simp only [i32At, u32At, slice, List.drop_take, List.take_take]
  rw [Nat.min_eq_left (by omega)]

/-- No table can be split off: the header is cut, the number of entries is negative,
or the entries run past the end. -/
def MalformedTable (headerSize countAt entrySize : Nat) (rest : Bytes) : Prop :=
  rest.length < headerSize ∨ i32At rest countAt < 0 ∨
    rest.length - headerSize < (i32At rest countAt).toInt.toNat * entrySize

theorem splitTable_eq_none_iff {headerSize countAt entrySize : Nat} {b : Bytes} :
    splitTable headerSize countAt entrySize b = none ↔ MalformedTable headerSize countAt entrySize b := by
  unfold splitTable MalformedTable
  dsimp only
  rw [List.length_drop]
  split_ifs <;> simp_all

/-- What is split off, and what the bytes of it are. -/
theorem splitTable_eq_some {headerSize countAt entrySize : Nat} {b header entries tail : Bytes}
    (h : splitTable headerSize countAt entrySize b = some (header, entries, tail)) :
    headerSize ≤ b.length ∧ 0 ≤ i32At b countAt ∧ header = b.take headerSize ∧
      entries.length = (i32At b countAt).toInt.toNat * entrySize ∧ b = header ++ (entries ++ tail) := by
  unfold splitTable at h
  dsimp only at h
  split_ifs at h with hhead hneg hlen
  simp only [Option.some.injEq, Prod.mk.injEq] at h
  obtain ⟨rfl, rfl, rfl⟩ := h
  refine ⟨by omega, Int32.not_lt.mp hneg, rfl, ?_, ?_⟩
  · rw [List.length_take]
    omega
  · rw [List.take_append_drop, List.take_append_drop]

/-- What is left after a table is shorter by its header at least. -/
theorem length_tail_of_splitTable {headerSize countAt entrySize : Nat} {b header entries tail : Bytes}
    (h : splitTable headerSize countAt entrySize b = some (header, entries, tail)) :
    tail.length + headerSize ≤ b.length := by
  obtain ⟨hlong, -, rfl, -, hb⟩ := splitTable_eq_some h
  have hlen := congrArg List.length hb
  rw [List.length_append, List.length_append, List.length_take] at hlen
  omega

theorem walkTables_fuel {headerSize countAt entrySize : Nat} (hhead : 0 < headerSize) {fuel fuel' : Nat} {b : Bytes}
    (h : b.length < fuel) (h' : b.length < fuel') :
    walkTables headerSize countAt entrySize fuel b = walkTables headerSize countAt entrySize fuel' b := by
  induction fuel generalizing fuel' b with
  | zero => omega
  | succ fuel ih =>
    cases fuel' with
    | zero => omega
    | succ fuel' =>
      rw [walkTables, walkTables]
      cases hsplit : splitTable headerSize countAt entrySize b with
      | none => rfl
      | some parts =>
        obtain ⟨header, entries, tail⟩ := parts
        have hshort := length_tail_of_splitTable hsplit
        exact congrArg _ (ih (by omega) (by omega))

section Counted

variable {η ε : Type} {hdr : Fixed η} {ent : Fixed ε}

theorem length_encodeTable (t : η × List ε) :
    (encodeTable hdr ent t).length = hdr.size + 4 + t.2.length * ent.size := by
  rw [encodeTable, List.length_append, List.length_append, hdr.length_encode, length_le32, ent.length_encodeAll]
  omega

theorem walkCounted_stop {b : Bytes} (h : MalformedTable (hdr.size + 4) hdr.size ent.size b) :
    walkCounted hdr ent b = [] := by
  rw [walkCounted, walkTables, splitTable_eq_none_iff.mpr h]
  rfl

theorem walkCounted_split {b header entries tail : Bytes}
    (h : splitTable (hdr.size + 4) hdr.size ent.size b = some (header, entries, tail)) :
    walkCounted hdr ent b = decodeTable hdr ent (header, entries) :: walkCounted hdr ent tail := by
  have hshort := length_tail_of_splitTable h
  rw [walkCounted, walkTables, h]
  dsimp only
  rw [List.map_cons, walkTables_fuel (Nat.succ_pos _) (by omega) (Nat.lt_succ_self tail.length), walkCounted]

variable (hdr) in
/-- The announced number, as read from a header with any bytes behind it. -/
theorem i32At_count (x : η) {count : Nat} (hcount : count < 2 ^ 31) (rest : Bytes) :
    0 ≤ i32At (hdr.encode x ++ (le32 count ++ rest)) hdr.size ∧
      (i32At (hdr.encode x ++ (le32 count ++ rest)) hdr.size).toInt = count := by
  have hread : i32At (hdr.encode x ++ (le32 count ++ rest)) hdr.size = Int32.ofNat count := by
    rw [i32At, u32At, slice, List.drop_left' (hdr.length_encode x), List.take_left' (length_le32 count),
      leNat_le32 (by omega)]
    rfl
  have htoInt : (Int32.ofNat count).toInt = count := Int32.toInt_ofNat_of_lt hcount
  rw [hread]
  refine ⟨?_, htoInt⟩
  rw [Int32.le_iff_toInt_le, htoInt]
  exact Int.natCast_nonneg count

theorem splitTable_encodeTable {t : η × List ε} (ht : t.2.length < 2 ^ 31) (rest : Bytes) :
    splitTable (hdr.size + 4) hdr.size ent.size (encodeTable hdr ent t ++ rest) =
      some (hdr.encode t.1 ++ le32 t.2.length, ent.encodeAll t.2, rest) := by
  have hbytes : encodeTable hdr ent t ++ rest =
      (hdr.encode t.1 ++ le32 t.2.length) ++ (ent.encodeAll t.2 ++ rest) := by
    simp only [encodeTable, List.append_assoc]
  have hhead : (hdr.encode t.1 ++ le32 t.2.length).length = hdr.size + 4 := by
    rw [List.length_append, hdr.length_encode, length_le32]
  have hcount := i32At_count hdr t.1 ht (ent.encodeAll t.2 ++ rest)
  rw [← List.append_assoc] at hcount
  rw [hbytes, splitTable, if_neg (by rw [List.length_append]; omega)]
  dsimp only
  rw [if_neg (Int32.not_lt.mpr hcount.1), hcount.2, Int.toNat_natCast, List.drop_left' hhead, List.take_left' hhead,
    ← ent.length_encodeAll, if_neg (by rw [List.length_append]; omega), List.take_left, List.drop_left]

/-- A complete table is found, and the walk goes on behind it. -/
theorem walkCounted_encodeTable (hent : 0 < ent.size) {t : η × List ε} (ht : t.2.length < 2 ^ 31) (rest : Bytes) :
    walkCounted hdr ent (encodeTable hdr ent t ++ rest) = t :: walkCounted hdr ent rest := by
  have hentries := ent.decodeAll_encodeAll t.2 []
  rw [List.append_nil] at hentries
  rw [walkCounted_split (splitTable_encodeTable ht rest), decodeTable, hdr.decode_encode, ent.length_encodeAll,
    Nat.mul_div_cancel _ hent, hentries]

theorem toNat_eq_of_toInt32_nonneg {x : UInt32} (h : 0 ≤ x.toInt32) : x.toNat = x.toInt32.toInt.toNat := by
  have htoInt : x.toInt32.toInt = if 2 * x.toNat < 2 ^ 32 then (x.toNat : Int) else x.toNat - (2 ^ 32 : Nat) :=
    BitVec.toInt_eq_toNat_cond x.toBitVec
  have hlt := x.toNat_lt
  rw [Int32.le_iff_toInt_le, Int32.toInt_zero] at h
  split_ifs at htoInt with hsmall <;> omega

variable (hdr) in
/-- No table can be split off, or the bytes start with one. -/
theorem malformed_or_encodeTable (hent : 0 < ent.size) (b : Bytes) :
    MalformedTable (hdr.size + 4) hdr.size ent.size b ∨
      ∃ t rest, t.2.length < 2 ^ 31 ∧ b = encodeTable hdr ent t ++ rest := by
  cases hsplit : splitTable (hdr.size + 4) hdr.size ent.size b with
  | none => exact .inl (splitTable_eq_none_iff.mp hsplit)
  | some parts =>
    obtain ⟨header, entries, tail⟩ := parts
    obtain ⟨hlong, hnonneg, hheader, hlen, hb⟩ := splitTable_eq_some hsplit
    have hlt := (i32At b hdr.size).toInt_lt
    have hdiv : entries.length / ent.size = (i32At b hdr.size).toInt.toNat := by rw [hlen, Nat.mul_div_cancel _ hent]
    have hcount : (decodeTable hdr ent (header, entries)).2.length = (i32At b hdr.size).toInt.toNat := by
      rw [decodeTable, ent.length_decodeAll, hdiv]
    refine .inr ⟨decodeTable hdr ent (header, entries), tail, by omega, ?_⟩
    have hentries : ent.encodeAll (decodeTable hdr ent (header, entries)).2 = entries := by
      change ent.encodeAll (ent.decodeAll (entries.length / ent.size) entries) = entries
      rw [hdiv, ent.encodeAll_decodeAll hlen.ge, ← hlen, List.take_length]
    have hfields : hdr.encode (hdr.decode header) ++ le32 (i32At b hdr.size).toInt.toNat = header := by
      have hword := toNat_eq_of_toInt32_nonneg hnonneg
      rw [← i32At] at hword
      have hslice := le32_leNat (length_slice hlong)
      rw [u32At, UInt32.toNat_ofNat', Nat.mod_eq_of_lt hslice.2] at hword
      rw [hdr.encode_decode _ (by rw [hheader, List.length_take]; omega), hheader, List.take_take,
        Nat.min_eq_left (by omega), ← hword, hslice.1, slice, ← List.take_add]
    change b = hdr.encode (hdr.decode header) ++ (le32 _ ++ ent.encodeAll _) ++ tail
    rw [hentries, hcount, ← List.append_assoc, hfields, List.append_assoc]
    exact hb

/-! ## Tables that are cut, and any payload -/

/-- A table that is cut is not found. -/
theorem walkCounted_take_short {t : η × List ε} (ht : t.2.length < 2 ^ 31) (rest : Bytes) {n : Nat}
    (hn : n < (encodeTable hdr ent t).length) : walkCounted hdr ent ((encodeTable hdr ent t ++ rest).take n) = [] := by
  refine walkCounted_stop ?_
  rw [length_encodeTable] at hn
  by_cases hhead : n < hdr.size + 4
  · exact .inl (by rw [List.length_take]; omega)
  · refine .inr (.inr ?_)
    have hread := (i32At_count hdr t.1 ht (ent.encodeAll t.2 ++ rest)).2
    rw [i32At_take (by omega), encodeTable, List.append_assoc, List.append_assoc, hread, Int.toNat_natCast,
      List.length_take]
    omega

/-- Of tables cut after `n` bytes the first ones are found, and a table is one of
them if and only if it ends within these bytes. -/
theorem walkCounted_take (hent : 0 < ent.size) {ts : List (η × List ε)} (hts : ∀ t ∈ ts, t.2.length < 2 ^ 31)
    (n : Nat) : ∃ k, walkCounted hdr ent ((encodeTables hdr ent ts).take n) = ts.take k ∧
      ∀ i < ts.length, i < k ↔ (encodeTables hdr ent (ts.take (i + 1))).length ≤ n := by
  have hcons (t : η × List ε) (ts : List (η × List ε)) :
      encodeTables hdr ent (t :: ts) = encodeTable hdr ent t ++ encodeTables hdr ent ts := List.flatMap_cons
  induction ts generalizing n with
  | nil =>
    refine ⟨0, ?_, fun i hi => absurd hi (Nat.not_lt_zero i)⟩
    rw [encodeTables, List.flatMap_nil, List.take_nil, List.take_nil]
    exact walkCounted_stop (.inl (Nat.succ_pos _))
  | cons t ts ih =>
    rw [List.forall_mem_cons] at hts
    have hlen (i : Nat) : (encodeTables hdr ent ((t :: ts).take (i + 1))).length =
        (encodeTable hdr ent t).length + (encodeTables hdr ent (ts.take i)).length := by
      rw [List.take_succ_cons, hcons, List.length_append]
    rw [hcons]
    by_cases hcut : n < (encodeTable hdr ent t).length
    · refine ⟨0, walkCounted_take_short hts.1 _ hcut, fun i hi => ?_⟩
      rw [hlen]
      omega
    · obtain ⟨k, hk, hiff⟩ := ih hts.2 (n - (encodeTable hdr ent t).length)
      refine ⟨k + 1, ?_, fun i hi => ?_⟩
      · rw [List.take_append, List.take_of_length_le (by omega), walkCounted_encodeTable hent hts.1, hk,
          List.take_succ_cons]
      · rw [hlen]
        cases i with
        | zero =>
          have hnil : (encodeTables hdr ent (ts.take 0)).length = 0 := rfl
          omega
        | succ i =>
          have hi' := hiff i (by rw [List.length_cons] at hi; omega)
          omega

variable (hdr) in
/-- The payload starts with the tables found, and behind them no table can be split off. -/
theorem walkCounted_append (hent : 0 < ent.size) (payload : Bytes) :
    ∃ rest, payload = encodeTables hdr ent (walkCounted hdr ent payload) ++ rest ∧
      MalformedTable (hdr.size + 4) hdr.size ent.size rest ∧
      ∀ t ∈ walkCounted hdr ent payload, t.2.length < 2 ^ 31 := by
  induction hn : payload.length using Nat.strong_induction_on generalizing payload with
  | _ n ih =>
    rcases malformed_or_encodeTable hdr hent payload with hstop | ⟨t, tail, ht, rfl⟩
    · refine ⟨payload, ?_, hstop, ?_⟩
      · rw [walkCounted_stop hstop]
        rfl
      · simp [walkCounted_stop hstop]
    · have hshort : tail.length < n := by
        rw [← hn, List.length_append, length_encodeTable]
        omega
      obtain ⟨rest, htail, hrest, hcounts⟩ := ih _ hshort tail rfl
      rw [walkCounted_encodeTable hent ht]
      refine ⟨rest, ?_, hrest, List.forall_mem_cons.mpr ⟨ht, hcounts⟩⟩
      rw [encodeTables, List.flatMap_cons, List.append_assoc]
      exact congrArg _ htail

end Counted

/-! ## The walkers of the source -/

def DaytimerEvent.bytes (e : DaytimerEvent) : Bytes :=
  encodeTable Wire.daytimerHeader Wire.daytimerEntry ((e.uuid, e.defaultValue), e.entries)

def WeatherEvent.bytes (e : WeatherEvent) : Bytes :=
  encodeTable Wire.weatherHeader Wire.weatherEntry ((e.uuid, e.lastUpdate), e.entries)

theorem records_eq_decodeAll {ε : Type} (ent : Fixed ε) (count : Nat) (b : Bytes) :
    records ent.size ent.decode count b = ent.decodeAll count b := by
  induction count generalizing b with
  | zero => rfl
  | succ count ih => rw [records, ih, Fixed.decodeAll]

/-- A walk that reads the fields of the header and the entries as `hdr` and `ent` do. -/
theorem map_walkTables {η ε τ : Type} (hdr : Fixed η) {ent : Fixed ε} {decode : Bytes → ε}
    (hentry : ∀ b, ent.decode b = decode b) (make : Bytes → List ε → τ) (make' : η → List ε → τ)
    (hmake : ∀ header entries, make header entries = make' (hdr.decode header) entries) (payload : Bytes) :
    ((walkTables (hdr.size + 4) hdr.size ent.size (payload.length + 1) payload).map fun t =>
      make t.1 (records ent.size decode (t.2.length / ent.size) t.2)) =
      (walkCounted hdr ent payload).map fun t => make' t.1 t.2 := by
  rw [walkCounted, List.map_map, ← funext hentry]
  refine List.map_congr_left fun t _ => ?_
  rw [records_eq_decodeAll, hmake]
  rfl

theorem walkDaytimers_eq (payload : Bytes) : walkDaytimers payload =
    (walkCounted Wire.daytimerHeader Wire.daytimerEntry payload).map fun t => ⟨t.1.1, t.1.2, t.2⟩ := by
  refine map_walkTables Wire.daytimerHeader Wire.daytimerEntry_decode
    (fun header => DaytimerEvent.mk (uuidAt header 0) (f64At header 16)) (fun h => .mk h.1 h.2)
    (fun header entries => ?_) payload
  have hvalue : Wire.f64.decode (header.drop 16) = f64At header 16 := Wire.f64At_drop header 16 0
  rw [← hvalue]
  rfl

theorem walkWeather_eq (payload : Bytes) : walkWeather payload =
    (walkCounted Wire.weatherHeader Wire.weatherEntry payload).map fun t => ⟨t.1.1, t.1.2, t.2⟩ := by
  refine map_walkTables Wire.weatherHeader Wire.weatherEntry_decode
    (fun header => WeatherEvent.mk (uuidAt header 0) (u32At header 16)) (fun h => .mk h.1 h.2)
    (fun header entries => ?_) payload
  have hupdate : Wire.u32.decode (header.drop 16) = u32At header 16 := by
    change u32At (header.drop 16) 0 = _
    rw [u32At, u32At, slice, slice, List.drop_drop]
  rw [← hupdate]
  rfl

/-- A call of `walk_daytimer_raw`: of its `table_fn` or of its `entry_fn`. -/
inductive DaytimerRaw where
  | table (uuid : LoxoneUuid) (defaultValue : UInt64) (nrEntries : Int32)
  | entry (uuid : LoxoneUuid) (entry : DaytimerEntry)
  deriving DecidableEq

/-- The calls for one table. -/
def daytimerRawTable (header entries : Bytes) : List DaytimerRaw :=
  let uuid := uuidAt header 0
  .table uuid (f64At header 16) (i32At header 24) ::
    (records DaytimerEntry.size (fun b => ⟨i32At b 0, i32At b 4, i32At b 8, i32At b 12, f64At b 16⟩)
      (entries.length / DaytimerEntry.size) entries).map (.entry uuid)

def walkDaytimerRawLoop : Nat → Bytes → List DaytimerRaw
  | 0, _ => []
  | fuel + 1, rest =>
    match splitTable daytimerHeaderSize 24 DaytimerEntry.size rest with
    | none => []
    | some (header, entries, tail) => daytimerRawTable header entries ++ walkDaytimerRawLoop fuel tail

def walkDaytimerRaw (payload : Bytes) : List DaytimerRaw := walkDaytimerRawLoop (payload.length + 1) payload

/-- The calls that a table stands for. -/
def DaytimerEvent.flatten (e : DaytimerEvent) : List DaytimerRaw :=
  .table e.uuid e.defaultValue (Int32.ofNat e.entries.length) :: e.entries.map (.entry e.uuid)

/-- The number in the header of a table that was split off is that of its entries. -/
theorem i32At_header {b header entries tail : Bytes}
    (h : splitTable daytimerHeaderSize 24 DaytimerEntry.size b = some (header, entries, tail)) :
    i32At header 24 = Int32.ofNat (entries.length / DaytimerEntry.size) := by
  obtain ⟨hlong, hnonneg, rfl, hlen, -⟩ := splitTable_eq_some h
  rw [Int32.le_iff_toInt_le, Int32.toInt_zero] at hnonneg
  have hlt := (i32At b 24).toInt_lt
  rw [i32At_take (by decide), hlen, Nat.mul_div_cancel _ (by decide)]
  refine Int32.toInt_inj.mp ?_
  rw [Int32.toInt_ofNat_of_lt (by omega), Int.toNat_of_nonneg hnonneg]

/-- The calls are those of the tables of `walkDaytimers`, one after another. -/
theorem walkDaytimerRaw_eq (payload : Bytes) :
    walkDaytimerRaw payload = (walkDaytimers payload).flatMap DaytimerEvent.flatten := by
  rw [walkDaytimerRaw, walkDaytimers]
  generalize payload.length + 1 = fuel
  induction fuel generalizing payload with
  | zero => rfl
  | succ fuel ih =>
    rw [walkDaytimerRawLoop, walkTables]
    cases hsplit : splitTable daytimerHeaderSize 24 DaytimerEntry.size payload with
    | none => rfl
    | some parts =>
      obtain ⟨header, entries, tail⟩ := parts
      dsimp only
      rw [List.map_cons, List.flatMap_cons, ih tail, daytimerRawTable, i32At_header hsplit]
      congr 1
      rw [DaytimerEvent.flatten, records_eq, List.length_map, List.length_range]

/-! ## The machine -/

/-- `usize::try_from` of an `i32`, with words of `bits` bits. -/
def usizeTryFrom (bits : Nat) (x : Int32) : Option Nat :=
  if 0 ≤ x.toInt ∧ x.toInt.toNat < 2 ^ bits then some x.toInt.toNat else none

def checkedMul (bits a b : Nat) : Option Nat := if a * b < 2 ^ bits then some (a * b) else none

/-- `split_table` with its checks; each of them that fails ends the walk. -/
def splitTableChecked (bits headerSize countAt entrySize : Nat) (payload : Bytes) :
    Option (Bytes × Bytes × Bytes) := do
  let (header, afterHeader) ← if headerSize ≤ payload.length then
    some (payload.take headerSize, payload.drop headerSize) else none
  let count ← usizeTryFrom bits (i32At header countAt)
  let entriesLen ← checkedMul bits count entrySize
  let entries ← if entriesLen ≤ afterHeader.length then some (afterHeader.take entriesLen) else none
  let rest ← if entriesLen ≤ afterHeader.length then some (afterHeader.drop entriesLen) else none
  return (header, entries, rest)

/-- `entries_of`: no entries if `count` of them are not there. -/
def entriesOf {ε : Type} (size : Nat) (decode : Bytes → ε) (bytes : Bytes) : List ε :=
  let count := bytes.length / size
  if count * size ≤ bytes.length then records size decode count bytes else []

/-- The loop of a walker that makes the calls `emit` for a table: `none` if it has
not ended after `fuel` rounds. -/
def walkTablesChecked {β : Type} (bits headerSize countAt entrySize : Nat) (emit : Bytes → Bytes → List β) :
    Nat → Bytes → Option (List β)
  | 0, _ => none
  | fuel + 1, rest =>
    match splitTableChecked bits headerSize countAt entrySize rest with
    | none => some []
    | some (header, entries, tail) =>
      (walkTablesChecked bits headerSize countAt entrySize emit fuel tail).map (emit header entries ++ ·)

def walkDaytimersChecked (bits : Nat) (payload : Bytes) : Option (List DaytimerEvent) :=
  walkTablesChecked bits daytimerHeaderSize 24 DaytimerEntry.size
    (fun header entries => [⟨uuidAt header 0, f64At header 16, entriesOf DaytimerEntry.size
      (fun b => ⟨i32At b 0, i32At b 4, i32At b 8, i32At b 12, f64At b 16⟩) entries⟩])
    (payload.length + 1) payload

def walkWeatherChecked (bits : Nat) (payload : Bytes) : Option (List WeatherEvent) :=
  walkTablesChecked bits weatherHeaderSize 20 WeatherEntry.size
    (fun header entries => [⟨uuidAt header 0, u32At header 16, entriesOf WeatherEntry.size
      (fun b => ⟨i32At b 0, i32At b 4, i32At b 8, i32At b 12, i32At b 16, f64At b 20, f64At b 28,
        f64At b 36, f64At b 44, f64At b 52, f64At b 60⟩) entries⟩])
    (payload.length + 1) payload

theorem entriesOf_eq {ε : Type} (size : Nat) (decode : Bytes → ε) (bytes : Bytes) :
    entriesOf size decode bytes = records size decode (bytes.length / size) bytes :=
  if_pos (Nat.div_mul_le_self _ _)

/-- A number of entries that the machine cannot hold is one whose entries run past
the end of a payload that it can. -/
theorem splitTableChecked_eq {bits headerSize countAt entrySize : Nat} (hcountAt : countAt + 4 ≤ headerSize)
    (hentry : 0 < entrySize) {payload : Bytes} (hfits : payload.length < 2 ^ bits) :
    splitTableChecked bits headerSize countAt entrySize payload =
      splitTable headerSize countAt entrySize payload := by
  by_cases hhead : payload.length < headerSize
  · rw [splitTable, if_pos hhead, splitTableChecked, if_neg (Nat.not_le.mpr hhead)]
    rfl
  have hneg : i32At payload countAt < 0 ↔ (i32At payload countAt).toInt < 0 := by
    rw [Int32.lt_iff_toInt_lt, Int32.toInt_zero]
  rw [splitTable, if_neg hhead, splitTableChecked, if_pos (Nat.not_lt.mp hhead)]
  simp only [Option.bind_eq_bind, Option.bind_some, i32At_take hcountAt, hneg, usizeTryFrom, checkedMul]
  generalize (i32At payload countAt).toInt = count
  have hcount : count.toNat ≤ count.toNat * entrySize := Nat.le_mul_of_pos_right _ hentry
  have hdrop : (payload.drop headerSize).length ≤ payload.length := by
    rw [List.length_drop]
    omega
  by_cases hsign : count < 0
  · rw [if_pos hsign, if_neg (by omega)]
    rfl
  rw [if_neg hsign]
  by_cases hpast : (payload.drop headerSize).length < count.toNat * entrySize
  · rw [if_pos hpast]
    split_ifs
    · rw [Option.bind_some]
      split_ifs
      · rw [Option.bind_some, if_neg (Nat.not_le.mpr hpast)]
        rfl
      · rfl
    · rfl
  · rw [if_neg hpast, if_pos (by omega), Option.bind_some, if_pos (by omega), Option.bind_some,
      if_pos (Nat.not_lt.mp hpast), if_pos (Nat.not_lt.mp hpast)]
    rfl

/-- For a payload that the machine can hold, the loop ends and makes the calls for
the tables of `walkTables`. -/
theorem walkTablesChecked_eq {β : Type} {bits headerSize countAt entrySize : Nat}
    (hcountAt : countAt + 4 ≤ headerSize) (hentry : 0 < entrySize) (emit : Bytes → Bytes → List β) {fuel : Nat}
    {payload : Bytes} (hfits : payload.length < 2 ^ bits) (hfuel : payload.length < fuel) :
    walkTablesChecked bits headerSize countAt entrySize emit fuel payload =
      some ((walkTables headerSize countAt entrySize fuel payload).flatMap fun t => emit t.1 t.2) := by
  induction fuel generalizing payload with
  | zero => omega
  | succ fuel ih =>
    rw [walkTablesChecked, walkTables, splitTableChecked_eq hcountAt hentry hfits]
    cases hsplit : splitTable headerSize countAt entrySize payload with
    | none => rfl
    | some parts =>
      obtain ⟨header, entries, tail⟩ := parts
      have hshort := length_tail_of_splitTable hsplit
      dsimp only
      rw [ih (by omega) (by omega), List.flatMap_cons]
      rfl

theorem walkDaytimersChecked_eq {bits : Nat} {payload : Bytes} (hfits : payload.length < 2 ^ bits) :
    walkDaytimersChecked bits payload = some (walkDaytimers payload) := by
  rw [walkDaytimersChecked, walkTablesChecked_eq (by decide) (by decide) _ hfits (Nat.lt_succ_self _), walkDaytimers,
    List.map_eq_flatMap]
  simp only [entriesOf_eq]

theorem walkWeatherChecked_eq {bits : Nat} {payload : Bytes} (hfits : payload.length < 2 ^ bits) :
    walkWeatherChecked bits payload = some (walkWeather payload) := by
  rw [walkWeatherChecked, walkTablesChecked_eq (by decide) (by decide) _ hfits (Nat.lt_succ_self _), walkWeather,
    List.map_eq_flatMap]
  simp only [entriesOf_eq]

/-! ## Exact decoding -/

/-- Of `ts` cut after `n` bytes, `walk` finds the ones that end within these bytes. -/
def FindsComplete {τ : Type} (walk : Bytes → List τ) (bytes : τ → Bytes) (ts : List τ) (n : Nat) : Prop :=
  ∃ k, walk ((ts.flatMap bytes).take n) = ts.take k ∧
    ∀ i < ts.length, i < k ↔ ((ts.take (i + 1)).flatMap bytes).length ≤ n

/-- `walk` finds what `payload` starts with, up to where no table can be split off. -/
def FindsAll {τ : Type} (walk : Bytes → List τ) (bytes : τ → Bytes) (headerSize countAt entrySize : Nat)
    (payload : Bytes) : Prop :=
  ∃ rest, payload = (walk payload).flatMap bytes ++ rest ∧ MalformedTable headerSize countAt entrySize rest

section Read

-- a record of the source in place of the pair of header fields and entries
variable {η ε τ : Type} {hdr : Fixed η} {ent : Fixed ε} (e : η × List ε ≃ τ) {walk : Bytes → List τ}
  {bytes : τ → Bytes} (hwalk : ∀ b, walk b = (walkCounted hdr ent b).map e)
  (hbytes : ∀ t, bytes t = encodeTable hdr ent (e.symm t)) (hent : 0 < ent.size)

include hbytes in
theorem flatMap_bytes (ts : List τ) : ts.flatMap bytes = encodeTables hdr ent (ts.map e.symm) := by
  rw [encodeTables, List.flatMap_map]
  exact List.flatMap_congr fun t _ => hbytes t

include hwalk hbytes hent in
theorem findsComplete {ts : List τ} (hts : ∀ t ∈ ts, (e.symm t).2.length < 2 ^ 31) (n : Nat) :
    FindsComplete walk bytes ts n := by
  have hmapped : ∀ t ∈ ts.map e.symm, t.2.length < 2 ^ 31 := by
    rw [List.forall_mem_map]
    exact hts
  obtain ⟨k, hk, hiff⟩ := walkCounted_take hent hmapped n
  refine ⟨k, ?_, fun i hi => ?_⟩
  · rw [hwalk, flatMap_bytes e hbytes, hk, ← List.map_take, List.map_map, Equiv.self_comp_symm, List.map_id]
  · rw [flatMap_bytes e hbytes, List.map_take]
    exact hiff i (by rwa [List.length_map])

include hwalk hbytes hent in
theorem findsAll (payload : Bytes) : FindsAll walk bytes (hdr.size + 4) hdr.size ent.size payload := by
  obtain ⟨rest, hpayload, hrest, -⟩ := walkCounted_append hdr hent payload
  refine ⟨rest, ?_, hrest⟩
  rw [flatMap_bytes e hbytes, hwalk, List.map_map, Equiv.symm_comp_self, List.map_id]
  exact hpayload

end Read

def daytimerEquiv : (LoxoneUuid × UInt64) × List DaytimerEntry ≃ DaytimerEvent where
  toFun t := ⟨t.1.1, t.1.2, t.2⟩
  invFun e := ((e.uuid, e.defaultValue), e.entries)
  left_inv _ := rfl
  right_inv _ := rfl

def weatherEquiv : (LoxoneUuid × UInt32) × List WeatherEntry ≃ WeatherEvent where
  toFun t := ⟨t.1.1, t.1.2, t.2⟩
  invFun e := ((e.uuid, e.lastUpdate), e.entries)
  left_inv _ := rfl
  right_inv _ := rfl

/-- A table has no more entries than an `i32` can announce. -/
theorem length_entries_walkDaytimers {payload : Bytes} : ∀ t ∈ walkDaytimers payload, t.entries.length < 2 ^ 31 := by
  obtain ⟨-, -, -, hcounts⟩ :=
    walkCounted_append Wire.daytimerHeader (show 0 < Wire.daytimerEntry.size by decide) payload
  rw [walkDaytimers_eq, List.forall_mem_map]
  exact hcounts

/-- Of tables cut after `n` bytes, exactly those are found that end within these
bytes. In any payload that the machine can hold, in finitely many rounds, the tables
are found that it starts with, up to the first header that is cut, announces a
negative number of entries or more than are there. The calls of `walkDaytimerRaw`
are those of these tables, and announce the number of entries that follow. -/
theorem counted_tables_decode_exactly (ds : List DaytimerEvent) (hds : ∀ d ∈ ds, d.entries.length < 2 ^ 31)
    (ws : List WeatherEvent) (hws : ∀ w ∈ ws, w.entries.length < 2 ^ 31) (n : Nat) (payload : Bytes) (bits : Nat)
    (hfits : payload.length < 2 ^ bits) :
    (FindsComplete walkDaytimers DaytimerEvent.bytes ds n ∧ FindsComplete walkWeather WeatherEvent.bytes ws n) ∧
      (walkDaytimersChecked bits payload = some (walkDaytimers payload) ∧
        FindsAll walkDaytimers DaytimerEvent.bytes daytimerHeaderSize 24 DaytimerEntry.size payload) ∧
      (walkWeatherChecked bits payload = some (walkWeather payload) ∧
        FindsAll walkWeather WeatherEvent.bytes weatherHeaderSize 20 WeatherEntry.size payload) ∧
      walkDaytimerRaw payload = (walkDaytimers payload).flatMap DaytimerEvent.flatten ∧
      ∀ t ∈ walkDaytimers payload, (Int32.ofNat t.entries.length).toInt = t.entries.length := by
  refine ⟨⟨?_, ?_⟩, ⟨walkDaytimersChecked_eq hfits, ?_⟩, ⟨walkWeatherChecked_eq hfits, ?_⟩,
    walkDaytimerRaw_eq payload, ?_⟩
  · exact findsComplete daytimerEquiv walkDaytimers_eq (fun _ => rfl) (by decide) hds n
  · exact findsComplete weatherEquiv walkWeather_eq (fun _ => rfl) (by decide) hws n
  · exact findsAll daytimerEquiv walkDaytimers_eq (fun _ => rfl) (by decide) payload
  · exact findsAll weatherEquiv walkWeather_eq (fun _ => rfl) (by decide) payload
  · intro t ht
    exact Int32.toInt_ofNat_of_lt (length_entries_walkDaytimers t ht)

/-- A table of two entries, and one without any. -/
def sampleDaytimers : List DaytimerEvent :=
  [⟨Vector.replicate 16 0x11, 5, [⟨1, 60, 90, 1, 7⟩, ⟨-1, 0, 0, 0, 9⟩]⟩, ⟨Vector.replicate 16 0x22, 0, []⟩]

/-- Both tables and, of the second, all bytes but one; the first is found. -/
theorem counted_tables_decode_exactly_cut :
    FindsComplete walkDaytimers DaytimerEvent.bytes sampleDaytimers 103 ∧
      walkDaytimersChecked 32 ((sampleDaytimers.flatMap DaytimerEvent.bytes).take 103) =
        some (walkDaytimers ((sampleDaytimers.flatMap DaytimerEvent.bytes).take 103)) :=
  have hexact := counted_tables_decode_exactly sampleDaytimers (by decide) [] (by decide) 103
    ((sampleDaytimers.flatMap DaytimerEvent.bytes).take 103) 32 (by decide)
  ⟨hexact.1.1, hexact.2.1.1⟩

end Lox
