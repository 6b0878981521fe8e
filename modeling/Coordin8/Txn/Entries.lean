import Coordin8.Txn.Endpoint
import Mathlib.Data.List.DropRight
import Mathlib.Data.String.Basic

/-!
# The entries of the allowlist

`parse_entry` reads one entry of `COORDIN8_TXN_PARTICIPANT_ALLOW`: a name, a
wildcard, an address or a CIDR.  A wildcard covers the names with at least one
label more than its own.

The source compares byte lengths and slices a name at a byte index, which can
panic.  The comparison is given once more with `none` for a panic, and shown to
agree with `below`.
-/

namespace Coordin8.Allowlist

open Support

/-! ## Reading an entry -/

/-- `char::is_whitespace`. -/
def isWhitespace (c : Char) : Bool :=
  let n := c.toNat
  (9 ≤ n && n ≤ 13) || n == 0x20 || n == 0x85 || n == 0xa0 || n == 0x1680 ||
    (0x2000 ≤ n && n ≤ 0x200a) || n == 0x2028 || n == 0x2029 || n == 0x202f ||
    n == 0x205f || n == 0x3000

/-- `str::trim`. -/
def trim (s : List Char) : List Char :=
  (s.dropWhile isWhitespace).rdropWhile isWhitespace

/-- `str::parse::<u8>`. -/
def parseU8 (p : List Char) : Option UInt8 :=
  let digits := stripPlus p
  if !digits.isEmpty && digits.all Char.isDigit && decimal digits < 2 ^ 8 then
    some (UInt8.ofNat (decimal digits))
  else
    none

def patternOf : Host → HostPattern
  | .name n => .exact n
  | .ip address => .ip address

section

variable (parseIp : String → Option IpAddr)

def parseCidr (addr len : List Char) : Except String Entry :=
  let addrText := String.ofList addr
  let lenText := String.ofList len
  match parseIp addrText with
  | none => .error s!"invalid CIDR address '{addrText}'"
  | some ip =>
      match parseU8 len with
      | none => .error s!"invalid CIDR prefix length '{lenText}'"
      | some n =>
          if hlen : n.toNat ≤ ip.width then
            -- the network is kept as it is written
            .ok ⟨.cidr ip n.toNat hlen, none⟩
          else
            let max := ip.width
            .error s!"CIDR prefix length {n} exceeds {max}"

/-- The host part of an entry that is no CIDR. -/
def parsePattern (host : List Char) : Except String HostPattern :=
  let text := String.ofList host
  match host with
  | '*' :: '.' :: suffix =>
      let suffix := suffix.map Char.toLower
      if validHostname suffix then
        .ok (.suffix (String.ofList suffix))
      else
        .error s!"invalid wildcard host '{text}'"
  | _ =>
      if '*' ∈ host then
        .error s!"'{text}': wildcards are only supported as a leading '*.'"
      else
        (parseHost parseIp host).map patternOf

def parseEntry (raw : String) : Except String Entry :=
  let text := trim raw.toList
  if text = [] then
    .error "empty entry"
  else
    match splitOnce '/' text with
    | some (addr, len) => parseCidr parseIp addr len
    | none => do
        let (host, port) ← splitHostPort text
        let port ← port.elim (.ok none) fun p => (parsePort p).map some
        let pattern ← parsePattern parseIp host
        return ⟨pattern, port⟩

end

/-! ## The comparison with a wildcard -/

/-- The slice of the first `n` bytes; `none` past the end and inside a
character, where slicing panics. -/
def takeBytes : List Char → Nat → Option (List Char)
  | _, 0 => some []
  | [], _ + 1 => none
  | c :: cs, n + 1 =>
      if c.utf8Size ≤ n + 1 then
        (takeBytes cs (n + 1 - c.utf8Size)).map (c :: ·)
      else
        none

/-- The comparison as the source makes it, in bytes. -/
def suffixMatches (h s : List Char) : Option Bool :=
  if String.utf8Len h > String.utf8Len s + 1 ∧ s.isSuffixOf h then
    -- the subtraction and the slice panic where they are not defined
    if String.utf8Len s ≤ String.utf8Len h then
      (takeBytes h (String.utf8Len h - String.utf8Len s)).map
        (['.'].isSuffixOf ·)
    else
      none
  else
    some false

theorem takeBytes_append (front back : List Char) :
    takeBytes (front ++ back) (String.utf8Len front) = some front := by
  induction front with
  | nil => simp [takeBytes]
  | cons c front ih =>
      have hpos := Char.utf8Size_pos c
      obtain ⟨n, hn⟩ : ∃ n, String.utf8Len (c :: front) = n + 1 :=
        ⟨_, (Nat.succ_pred_eq_of_pos (by rw [String.utf8Len_cons]; omega)).symm⟩
      rw [List.cons_append, hn, takeBytes, ← hn, String.utf8Len_cons,
        Nat.add_sub_cancel, ih, if_pos (by omega), Option.map_some]

/-- Whether the size is counted in characters or in bytes, more than the dot is
left before the domain exactly if there is a name before the dot. -/
theorem dot_suffix_iff (size : List Char → Nat)
    (hdot : ∀ name, size (name ++ ['.']) = size name + 1)
    (hzero : ∀ name, size name = 0 ↔ name = []) {front : List Char} :
    (1 < size front ∧ ['.'] <:+ front) ↔ ∃ name ≠ [], front = name ++ ['.'] := by
  constructor
  · rintro ⟨hsize, name, rfl⟩
    rw [hdot] at hsize
    exact ⟨name, mt (hzero name).mpr (by omega), rfl⟩
  · rintro ⟨name, hne, rfl⟩
    have hsize := mt (hzero name).mp hne
    exact ⟨by rw [hdot]; omega, List.suffix_append _ _⟩

theorem below_append (front s : List Char) :
    below (front ++ s) s = true ↔ ∃ name ≠ [], front = name ++ ['.'] := by
  have htake : (front ++ s).take ((front ++ s).length - s.length) = front := by
    rw [List.length_append, Nat.add_sub_cancel, List.take_left]
  have hlength : (front ++ s).length > s.length + 1 ↔ 1 < front.length := by
    rw [List.length_append]
    omega
  rw [← dot_suffix_iff List.length (by simp) (by simp), below, htake]
  simp only [Bool.and_eq_true, decide_eq_true_eq, hlength,
    List.isSuffixOf_iff_suffix, List.suffix_append, and_true]

theorem below_iff {h s : List Char} :
    below h s = true ↔ ∃ front ≠ [], h = front ++ '.' :: s := by
  constructor
  · intro hbelow
    have hsuffix : s <:+ h := by
      simp only [below, Bool.and_eq_true, List.isSuffixOf_iff_suffix] at hbelow
      exact hbelow.1.2
    obtain ⟨front, rfl⟩ := hsuffix
    obtain ⟨name, hne, rfl⟩ := (below_append front s).mp hbelow
    exact ⟨name, hne, by rw [List.append_assoc, List.singleton_append]⟩
  · rintro ⟨name, hne, rfl⟩
    rw [← List.singleton_append, ← List.append_assoc]
    exact (below_append _ s).mpr ⟨name, hne, rfl⟩

/-- The comparison in bytes does not panic, and gives what the one in characters
gives. -/
theorem suffixMatches_eq (h s : List Char) :
    suffixMatches h s = some (below h s) := by
  by_cases hsuffix : s <:+ h
  · obtain ⟨front, rfl⟩ := hsuffix
    have hslice : takeBytes (front ++ s)
        (String.utf8Len (front ++ s) - String.utf8Len s) = some front := by
      rw [String.utf8Len_append, Nat.add_sub_cancel, takeBytes_append]
    have hlength : String.utf8Len (front ++ s) > String.utf8Len s + 1 ↔
        1 < String.utf8Len front := by
      rw [String.utf8Len_append]
      omega
    have hbelow : below (front ++ s) s = true ↔
        1 < String.utf8Len front ∧ ['.'] <:+ front := by
      rw [below_append, dot_suffix_iff String.utf8Len]
      · intro name
        rw [String.utf8Len_append]
        rfl
      · simp
    rw [suffixMatches, hslice]
    by_cases hlong : 1 < String.utf8Len front
    · rw [if_pos ⟨hlength.mpr hlong, by simp⟩,
        if_pos (by rw [String.utf8Len_append]; omega), Option.map_some,
        Option.some_inj, Bool.eq_iff_iff, hbelow, List.isSuffixOf_iff_suffix]
      exact (and_iff_right hlong).symm
    · rw [if_neg fun h => hlong (hlength.mp h.1), eq_comm, Option.some_inj,
        Bool.eq_false_iff]
      exact fun h => hlong (hbelow.mp h).1
  · have hbelow : below h s = false := by simp [below, hsuffix]
    simp [suffixMatches, hsuffix, hbelow]

/-- For a host name, the names below a domain are those with its labels after at
least one of their own. -/
theorem below_iff_labels {h s : List Char} (hname : IsName h) :
    below h s = true ↔
      ∃ front ≠ [], h.splitOn '.' = front ++ s.splitOn '.' := by
  rw [below_iff, exists_splitOn_eq_append_iff]
  refine ⟨fun ⟨front, _, heq⟩ => ⟨front, heq⟩, ?_⟩
  rintro ⟨front, rfl⟩
  refine ⟨front, ?_, rfl⟩
  rintro rfl
  -- a name that starts with a dot has an empty label
  have hlabels := (validHostname_eq_true_iff.mp
    (validHostname_iff_isName.mpr hname)).2
  refine (hlabels [] ?_).1 rfl
  rw [List.splitOn_append_cons_self, List.splitOn_nil]
  exact List.mem_cons_self

section Wildcards

variable {ip : IpParser} {raw : String} {s : List Char}
  {port : Option (List Char)} {entry : Entry}

theorem head?_of_splitHostPort {text host : List Char} {c : Char}
    (h : splitHostPort text = .ok (c :: host, port)) :
    text.head? = some '[' ∨ text.head? = some c := by
  unfold splitHostPort at h
  split at h
  · exact .inl rfl
  · right
    split at h
    · next hsplit =>
      obtain ⟨rfl, -⟩ := splitOnce_eq_some_iff.mp hsplit
      obtain ⟨rfl, -⟩ := Prod.mk.inj (Except.ok.inj h)
      rfl
    · obtain ⟨rfl, -⟩ := Prod.mk.inj (Except.ok.inj h)
      rfl

/-- A text with a slash is no wildcard entry: what stands before the slash would
have to be an address. -/
theorem splitOnce_slash_of_wildcard
    (hraw : splitHostPort (trim raw.toList) = .ok ('*' :: '.' :: s, port))
    (hentry : parseEntry ip.parse raw = .ok entry) :
    splitOnce '/' (trim raw.toList) = none := by
  by_contra hsplit
  obtain ⟨⟨addr, len⟩, hsplit⟩ := Option.ne_none_iff_exists'.mp hsplit
  have hhead := head?_of_splitHostPort hraw
  rw [(splitOnce_eq_some_iff.mp hsplit).1] at hhead
  have haddr : ip.parse (String.ofList addr) = none := by
    cases addr with
    | nil => simp at hhead
    | cons c addr =>
        by_contra hne
        obtain ⟨a, ha⟩ := Option.ne_none_iff_exists'.mp hne
        have hc := ip.chars ha c List.mem_cons_self
        rcases hhead with hhead | hhead <;> cases hhead <;> revert hc <;> decide
  simp only [parseEntry, hsplit, parseCidr, haddr] at hentry
  split at hentry <;> cases hentry

theorem parseEntry_wildcard
    (hraw : splitHostPort (trim raw.toList) = .ok ('*' :: '.' :: s, port))
    (hentry : parseEntry ip.parse raw = .ok entry) :
    entry.host = .suffix (String.ofList (s.map Char.toLower)) ∧
      port.elim (.ok none) (fun p => (parsePort p).map some) =
        .ok entry.port := by
  have hslash := splitOnce_slash_of_wildcard hraw hentry
  simp only [parseEntry, hslash, hraw] at hentry
  split at hentry
  · cases hentry
  · obtain ⟨parts, hparts, hentry⟩ := bind_eq_ok_iff.mp hentry
    obtain rfl := Except.ok.inj hparts
    obtain ⟨port', hport, hentry⟩ := bind_eq_ok_iff.mp hentry
    obtain ⟨pattern, hpattern, hentry⟩ := bind_eq_ok_iff.mp hentry
    obtain rfl := Except.ok.inj hentry
    simp only [parsePattern] at hpattern
    split at hpattern
    · exact ⟨(Except.ok.inj hpattern).symm, hport⟩
    · cases hpattern

theorem Entry.matches_suffix {e : Entry} {domain name : String} {q : UInt16}
    (he : e.host = .suffix domain) :
    e.matches (.name name) q = true ↔
      (∀ n ∈ e.port, n = q) ∧ below name.toList domain.toList = true := by
  obtain ⟨host, port⟩ := e
  obtain rfl : host = .suffix domain := he
  cases port <;> simp [Entry.matches]

theorem port_agrees_iff {n : Option UInt16} {q : UInt16}
    (h : port.elim (.ok none) (fun p => (parsePort p).map some) = .ok n) :
    (∀ m ∈ n, m = q) ↔ ∀ p ∈ port, parsePort p = .ok q := by
  cases port with
  | none =>
      obtain rfl := Except.ok.inj h
      simp
  | some p =>
      rw [Option.elim_some] at h
      cases hp : parsePort p with
      | error e =>
          rw [hp] at h
          cases h
      | ok m =>
          rw [hp] at h
          obtain rfl := Except.ok.inj h
          simp [hp]

end Wildcards

/-- The name of an accepted endpoint is the one written, in lower case. -/
theorem name_of_parseEndpoint {parseIp : String → Option IpAddr}
    {endpoint name : String} {h p : List Char} {q : UInt16}
    (hwritten : splitHostPort endpoint.toList = .ok (h, some p))
    (hendpoint : parseEndpoint parseIp endpoint = .ok (.name name, q)) :
    IsName h ∧ name = String.ofList (h.map Char.toLower) := by
  obtain ⟨h', p', hsplit, -, hhost⟩ := parseEndpoint_eq_ok_iff.mp hendpoint
  rw [hwritten] at hsplit
  cases hsplit
  have hmatch := (parseHost_eq_ok_iff.mp hhost).2
  split at hmatch
  · cases hmatch
  · exact ⟨hmatch.1, Host.name.inj hmatch.2⟩

/-- A wildcard entry covers the names with at least one label before its own, up
to the case of letters, and no address.  Its comparison never panics. -/
theorem wildcard_covers_subdomains (ip : IpParser) {raw endpoint : String}
    {s h p : List Char} {port : Option (List Char)} {entry : Entry} {host : Host}
    {q : UInt16}
    (hraw : splitHostPort (trim raw.toList) = .ok ('*' :: '.' :: s, port))
    (hentry : parseEntry ip.parse raw = .ok entry)
    (hwritten : splitHostPort endpoint.toList = .ok (h, some p))
    (hendpoint : parseEndpoint ip.parse endpoint = .ok (host, q)) :
    (∀ name, host = .name name →
      (entry.matches host q = true ↔ (∀ n ∈ port, parsePort n = .ok q) ∧
        ∃ front ≠ [], (h.splitOn '.').map (List.map Char.toLower) =
          front ++ (s.splitOn '.').map (List.map Char.toLower)) ∧
      suffixMatches name.toList (s.map Char.toLower) =
        some (below name.toList (s.map Char.toLower))) ∧
    ∀ address, host = .ip address → entry.matches host q = false := by
  obtain ⟨hsuffix, hport⟩ := parseEntry_wildcard hraw hentry
  refine ⟨?_, ?_⟩
  · rintro name rfl
    refine ⟨?_, suffixMatches_eq _ _⟩
    obtain ⟨hname, rfl⟩ := name_of_parseEndpoint hwritten hendpoint
    have hlower : IsName (h.map Char.toLower) := by
      rwa [← validHostname_iff_isName, validHostname_toLower,
        validHostname_iff_isName]
    rw [Entry.matches_suffix hsuffix, port_agrees_iff hport,
      String.toList_ofList, String.toList_ofList, below_iff_labels hlower,
      splitOn_toLower, splitOn_toLower]
  · rintro address rfl
    simp [Entry.matches, hsuffix]

def internalEntry : Entry :=
  ⟨.suffix "internal", some 9006⟩

theorem wildcard_covers_subdomains_internal :
    parseEntry twoLiterals.parse " *.Internal:9006" = .ok internalEntry ∧
      internalEntry.matches (.name "a.b.internal") 9006 = true ∧
      internalEntry.matches (.ip (.v4 0x0a000005#32)) 9006 = false := by
  have hraw : splitHostPort (trim " *.Internal:9006".toList) =
      .ok ('*' :: '.' :: "Internal".toList, some "9006".toList) := by rfl
  have hentry :
      parseEntry twoLiterals.parse " *.Internal:9006" = .ok internalEntry := by
    rfl
  refine ⟨hentry, ?_, ?_⟩
  · have hwritten : splitHostPort "A.b.INTERNAL:9006".toList =
        .ok ("A.b.INTERNAL".toList, some "9006".toList) := by rfl
    have hendpoint : parseEndpoint twoLiterals.parse "A.b.INTERNAL:9006" =
        .ok (.name "a.b.internal", 9006) := by rfl
    obtain ⟨hnames, -⟩ :=
      wildcard_covers_subdomains twoLiterals hraw hentry hwritten hendpoint
    refine (hnames _ rfl).1.mpr ⟨?_, [['a'], ['b']], by simp, by decide +kernel⟩
    rintro n ⟨⟩
    rfl
  · have hwritten : splitHostPort "10.0.0.5:9006".toList =
        .ok ("10.0.0.5".toList, some "9006".toList) := by rfl
    have hendpoint : parseEndpoint twoLiterals.parse "10.0.0.5:9006" =
        .ok (.ip (.v4 0x0a000005#32), 9006) := by rfl
    exact (wildcard_covers_subdomains twoLiterals hraw hentry hwritten
      hendpoint).2 _ rfl

end Coordin8.Allowlist
