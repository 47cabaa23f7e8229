import LoxWebsocket.Proto.Header

/-!
# Event tables

The four tables of states the Miniserver pushes, as lists of their records: the
walkers of the source call back once for each. Floats are their 64 bits.
-/

namespace Lox

/-- The 16 bytes of a UUID. -/
abbrev LoxoneUuid := Vector UInt8 16

/-- The bytes of `b` from `offset` to `offset + n`, if it has them. -/
def slice (b : Bytes) (offset n : Nat) : Bytes := (b.drop offset).take n

def uuidAt (b : Bytes) (offset : Nat) : LoxoneUuid := Vector.ofFn fun i => b.getD (offset + i) 0

def u32At (b : Bytes) (offset : Nat) : UInt32 := UInt32.ofNat (leNat (slice b offset 4))

def i32At (b : Bytes) (offset : Nat) : Int32 := (u32At b offset).toInt32

def f64At (b : Bytes) (offset : Nat) : UInt64 := UInt64.ofNat (leNat (slice b offset 8))

/-- `count` records of `size` bytes each, from the front. -/
def records {α : Type} (size : Nat) (decode : Bytes → α) : Nat → Bytes → List α
  | 0, _ => []
  | count + 1, b => decode (b.take size) :: records size decode count (b.drop size)

/-- Each record is decoded from its own bytes. -/
theorem records_eq {α : Type} (size : Nat) (decode : Bytes → α) (count : Nat) (b : Bytes) :
    records size decode count b = (List.range count).map fun k => decode (slice b (size * k) size) := by
  induction count generalizing b with
  | zero => rfl
  | succ count ih =>
    rw [records, ih, List.range_succ_eq_map, List.map_cons, List.map_map]
    simp [slice, List.drop_drop, Nat.mul_add, Nat.add_comm]

/-! ## Values -/

def valueRecordSize : Nat := 24

structure ValueRecord where
  uuid : LoxoneUuid
  value : UInt64
  deriving DecidableEq

/-- Every complete record; truncated trailing bytes are ignored. -/
def walkValues (payload : Bytes) : List ValueRecord :=
  records valueRecordSize (fun b => ⟨uuidAt b 0, f64At b 16⟩) (payload.length / valueRecordSize) payload

/-! ## Texts -/

def textHeaderSize : Nat := 36

structure TextRecord where
  uuid : LoxoneUuid
  icon : LoxoneUuid
  text : Bytes
  deriving DecidableEq

/-- The loop of `walkTexts`. A record is at least a header long, so `fuel` need
not exceed the length of the payload. -/
def walkTextsLoop : Nat → Bytes → List TextRecord
  | 0, _ => []
  | fuel + 1, rest =>
    if rest.length < textHeaderSize then []
    else
      let afterHeader := rest.drop textHeaderSize
      let textLen := (u32At rest 32).toNat
      if afterHeader.length < textLen then []
      else
        -- `(n + 3) & !3`
        let recordLen := (textHeaderSize + textLen + 3) / 4 * 4
        ⟨uuidAt rest 0, uuidAt rest 16, afterHeader.take textLen⟩ ::
          if rest.length < recordLen then [] else walkTextsLoop fuel (rest.drop recordLen)

def walkTexts (payload : Bytes) : List TextRecord := walkTextsLoop (payload.length + 1) payload

/-! ## Daytimers and weather -/

/-- One table split off the payload: its header, the bytes of its entries and
the rest. `countAt` is where the header has the number of entries. -/
def splitTable (headerSize countAt entrySize : Nat) (payload : Bytes) : Option (Bytes × Bytes × Bytes) :=
  if payload.length < headerSize then none
  else
    let afterHeader := payload.drop headerSize
    let nrEntries := i32At payload countAt
    if nrEntries < 0 then none
    else
      let entriesLen := nrEntries.toInt.toNat * entrySize
      if afterHeader.length < entriesLen then none
      else some (payload.take headerSize, afterHeader.take entriesLen, afterHeader.drop entriesLen)

/-- The loop over the tables of a payload; a table is at least a header long. -/
def walkTables (headerSize countAt entrySize : Nat) : Nat → Bytes → List (Bytes × Bytes)
  | 0, _ => []
  | fuel + 1, rest =>
    match splitTable headerSize countAt entrySize rest with
    | none => []
    | some (header, entries, tail) => (header, entries) :: walkTables headerSize countAt entrySize fuel tail

structure DaytimerEntry where
  mode : Int32
  fromMinutes : Int32
  toMinutes : Int32
  needActivate : Int32
  value : UInt64
  deriving DecidableEq

def DaytimerEntry.size : Nat := 24

structure DaytimerEvent where
  uuid : LoxoneUuid
  defaultValue : UInt64
  entries : List DaytimerEntry
  deriving DecidableEq

def daytimerHeaderSize : Nat := 28

def walkDaytimers (payload : Bytes) : List DaytimerEvent :=
  (walkTables daytimerHeaderSize 24 DaytimerEntry.size (payload.length + 1) payload).map
    fun (header, entries) =>
      ⟨uuidAt header 0, f64At header 16, records DaytimerEntry.size
        (fun b => ⟨i32At b 0, i32At b 4, i32At b 8, i32At b 12, f64At b 16⟩)
        (entries.length / DaytimerEntry.size) entries⟩

structure WeatherEntry where
  timestamp : Int32
  weatherType : Int32
  windDirection : Int32
  solarRadiation : Int32
  relativeHumidity : Int32
  temperature : UInt64
  perceivedTemperature : UInt64
  dewPoint : UInt64
  precipitation : UInt64
  windSpeed : UInt64
  barometricPressure : UInt64
  deriving DecidableEq

def WeatherEntry.size : Nat := 68

structure WeatherEvent where
  uuid : LoxoneUuid
  /-- Seconds since 2009-01-01 UTC. -/
  lastUpdate : UInt32
  entries : List WeatherEntry
  deriving DecidableEq

def weatherHeaderSize : Nat := 24

def walkWeather (payload : Bytes) : List WeatherEvent :=
  (walkTables weatherHeaderSize 20 WeatherEntry.size (payload.length + 1) payload).map
    fun (header, entries) =>
      ⟨uuidAt header 0, u32At header 16, records WeatherEntry.size
        (fun b => ⟨i32At b 0, i32At b 4, i32At b 8, i32At b 12, i32At b 16, f64At b 20, f64At b 28,
          f64At b 36, f64At b 44, f64At b 52, f64At b 60⟩)
        (entries.length / WeatherEntry.size) entries⟩

end Lox
