import Coordin8.Core.Records
import Coordin8.Dynamo.Service
import Coordin8.Support.Results

/-!
# Records as items

What the providers share when they write a record as an item and read it back:
times as RFC 3339 text, maps of strings, attributes that are left out when they
are empty.  Reading back what was written gives the value written.
-/

namespace Coordin8.Dynamo

open Support

/-- `DateTime::to_rfc3339` and its parser. -/
structure Rfc3339 where
  print : Timestamp → String
  parse : String → Except String Timestamp
  /-- A printed time is read back exactly. -/
  parse_print : ∀ time, parse (print time) = .ok time

theorem replicate_ne_epoch (n : Nat) {c : Char} (h : c ≠ '1') :
    String.ofList (List.replicate n c) ≠ "1970-01-01T00:00:00+00:00" := by
  intro heq
  have hlist := congrArg String.toList heq
  rw [String.toList_ofList] at hlist
  have hmem : '1' ∈ List.replicate n c := by
    rw [hlist]
    decide
  exact h (List.eq_of_mem_replicate hmem).symm

/-- A format that writes the epoch as RFC 3339 does, and other times as a row of
signs. -/
def epochFormat : Rfc3339 where
  print time :=
    if time = 0 then "1970-01-01T00:00:00+00:00"
    else if 0 < time then String.ofList (List.replicate time.toNat '+')
    else String.ofList (List.replicate (-time).toNat '-')
  parse text :=
    if text = "1970-01-01T00:00:00+00:00" then .ok 0
    else if text.toList.contains '+' then .ok text.toList.length
    else .ok (-text.toList.length)
  parse_print := by
    intro (time : Int)
    by_cases hzero : time = 0
    · simp [hzero]
    · by_cases hpos : 0 < time
      · have hlength : max time 0 = time := by omega
        simp [hzero, hpos, replicate_ne_epoch, hlength]
      · have hlength : -max (-time) 0 = time := by omega
        simp [hzero, hpos, replicate_ne_epoch, hlength]

/-- `AttributeValue::M` of a map of strings. -/
def stringsToAv (strings : Attrs) : AttributeValue :=
  .m (strings.toList.map fun e => (e.1, .s e.2))

/-- A map of strings, empty when the attribute is absent or of another type.
`notString` is the error for a value under the given key. -/
def readStrings (notString : String → Error) (value : Option AttributeValue) :
    Except Error Attrs :=
  match value with
  | some (.m fields) => do
      let entries ← fields.mapM fun field =>
        match field.2.asS with
        | some text => .ok (field.1, text)
        | none => .error (notString field.1)
      pure (DashMap.insertAll Prod.fst Prod.snd ∅ entries)
  | _ => pure ∅

def stringsFromAv (what : String) : Option AttributeValue → Except Error Attrs :=
  readStrings fun key =>
    .storage (what ++ " value for '" ++ key ++ "' is not a string")

/-- An attribute that must be there and be a string. -/
def requiredText (item : Item) (attr : String) : Except Error String :=
  match item.text attr with
  | some text => .ok text
  | none => .error (.storage ("missing " ++ attr))

/-- An attribute that must be there and be a `u64`. -/
def requiredU64 (item : Item) (attr : String) : Except Error Nat :=
  match (item[attr]?).bind AttributeValue.asN with
  | none => .error (.storage ("missing " ++ attr))
  | some value =>
      (AttributeValue.parseU64 value).mapError fun e =>
        .storage ("bad " ++ attr ++ ": " ++ e)

/-- A time that must be there. -/
def requiredTime (fmt : Rfc3339) (item : Item) (attr : String) :
    Except Error Timestamp := do
  let text ← requiredText item attr
  (fmt.parse text).mapError fun e => .storage ("bad " ++ attr ++ ": " ++ e)

/-- Add an attribute to an item if it has a value. -/
def insertSome (item : Item) (attr : String) (value : Option AttributeValue) :
    Item :=
  match value with
  | some v => item.insert attr v
  | none => item

/-- A blob is stored only when it is not empty. -/
def blobToAv (bytes : List UInt8) : Option AttributeValue :=
  if bytes.isEmpty then none else some (.b bytes)

/-! ## Reading back what was written -/

@[simp] theorem readStrings_stringsToAv (notString : String → Error)
    (strings : Attrs) :
    readStrings notString (some (stringsToAv strings)) = .ok strings := by
  have hentries : (strings.toList.map fun e =>
      ((e.1, .s e.2) : String × AttributeValue)).mapM (fun field =>
        match field.2.asS with
        | some text => Except.ok (field.1, text)
        | none => .error (notString field.1)) = .ok strings.toList := by
    rw [List.mapM_map]
    exact List.mapM_pure.trans (by rw [List.map_id']; rfl)
  simp only [readStrings, stringsToAv, hentries, bind, Except.bind]
  exact congrArg Except.ok (DashMap.insertAll_toList strings)

variable {item : Item} {attr other : String}

theorem text_of_requiredText {text : String}
    (h : requiredText item attr = .ok text) : item.text attr = some text := by
  unfold requiredText at h
  split at h
  · next t ht => rw [ht, Except.ok.inj h]
  · cases h

theorem requiredText_of_get {text : String}
    (h : item[attr]? = some (.s text)) : requiredText item attr = .ok text := by
  simp only [requiredText, Item.text, h, Option.bind_some, AttributeValue.asS]

theorem parseU64_natCast {n : Nat} (hn : n < 2 ^ 64) :
    AttributeValue.parseU64 n = .ok n := by
  rw [AttributeValue.parseU64, if_neg (by omega), if_pos (by omega),
    Int.toNat_natCast]

theorem requiredU64_of_get {n : Nat} (h : item[attr]? = some (.n n))
    (hn : n < 2 ^ 64) : requiredU64 item attr = .ok n := by
  unfold requiredU64
  rw [h, Option.bind_some, AttributeValue.asN]
  dsimp only
  rw [parseU64_natCast hn]
  rfl

theorem number_of_get {n : Nat} (h : item[attr]? = some (.n n))
    (hn : n < 2 ^ 64) : item.number attr = some n := by
  rw [Item.number, h, Option.bind_some, AttributeValue.asU64,
    parseU64_natCast hn]
  rfl

theorem requiredTime_of_get {fmt : Rfc3339} {time : Timestamp}
    (h : item[attr]? = some (.s (fmt.print time))) :
    requiredTime fmt item attr = .ok time := by
  rw [requiredTime, requiredText_of_get h]
  change (fmt.parse (fmt.print time)).mapError _ = _
  rw [fmt.parse_print]
  rfl

@[simp] theorem text_insert (value : AttributeValue) :
    Item.text (item.insert attr value) other =
      if attr = other then value.asS else item.text other := by
  simp only [Item.text, DashMap.get_insert]
  split <;> rfl

@[simp] theorem blob_insert_of_ne (value : AttributeValue) (h : attr ≠ other) :
    Item.blob (item.insert attr value) other = item.blob other := by
  simp only [Item.blob, DashMap.get_insert, if_neg h]

theorem get_insertSome (value : Option AttributeValue) :
    (insertSome item attr value)[other]? =
      if attr = other then value.or item[other]? else item[other]? := by
  cases value with
  | none => simp [insertSome]
  | some v => simp [insertSome, DashMap.get_insert]

theorem text_insertSome (value : Option AttributeValue) :
    (insertSome item attr value).text other =
      if attr = other then (value.or item[other]?).bind AttributeValue.asS
      else item.text other := by
  simp only [Item.text, get_insertSome]
  split <;> rfl

theorem blob_insertSome_blobToAv (bytes : List UInt8)
    (habsent : item[attr]? = none) :
    (insertSome item attr (blobToAv bytes)).blob attr = bytes := by
  simp only [Item.blob, get_insertSome, if_true, habsent, Option.or_none]
  cases bytes with
  | nil | cons b bytes => rfl

end Coordin8.Dynamo
