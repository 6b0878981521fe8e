import Coordin8.Txn.Entries

/-!
# The addresses a CIDR entry covers

`cidr_contains` compares two addresses under a mask.  Where the address of the
endpoint is canonical the mask compares the leading bits, for every width and
every length, and no shift is by the whole width.

An endpoint's address is canonical by the time it is compared, the network is
not.  So a network of IPv6 addresses does not cover the IPv4-mapped ones among
them.
-/

namespace Coordin8.Allowlist

open Support

/-! ## Masks -/

/-- The words agree in their first `len` bits. -/
def SharesPrefix {w : Nat} (len : Nat) (x y : BitVec w) : Prop :=
  ∀ i < len, x.getMsbD i = y.getMsbD i

theorem and_mask_eq_iff {w len : Nat} (hlen : len ≤ w) {x y : BitVec w} :
    x &&& BitVec.allOnes w <<< (w - len) = y &&& BitVec.allOnes w <<< (w - len) ↔
      SharesPrefix len x y := by
  have hmask : ∀ i, (BitVec.allOnes w <<< (w - len)).getMsbD i =
      decide (i < len) := by
    intro i
    rw [BitVec.getMsbD_shiftLeft, BitVec.getMsbD_allOnes]
    exact decide_eq_decide.mpr (by omega)
  constructor
  · intro heq i hi
    simpa [hmask, hi] using congrArg (·.getMsbD i) heq
  · intro hshares
    refine BitVec.eq_of_getMsbD_eq fun i _ => ?_
    rw [BitVec.getMsbD_and, BitVec.getMsbD_and, hmask]
    by_cases hi : i < len
    · rw [hshares i hi]
    · simp [hi]

/-- The mask as the source computes it; `none` where the subtraction or the shift
panics. -/
def cidrMask (w len : Nat) : Option (BitVec w) :=
  if len = 0 then
    some 0
  else if len ≤ w ∧ w - len < w then
    some (BitVec.allOnes w <<< (w - len))
  else
    none

theorem cidrMask_eq {w len : Nat} (hlen : len ≤ w) :
    cidrMask w len = some (BitVec.allOnes w <<< (w - len)) := by
  unfold cidrMask
  split
  · next h0 =>
    rw [h0, Nat.sub_zero, BitVec.shiftLeft_eq_zero (le_refl w)]
    rfl
  · rw [if_pos (by omega)]

/-- `cidr_contains` with `none` for a panic. -/
def cidrContainsChecked (net : IpAddr) (len : Nat) (ip : IpAddr) : Option Bool :=
  match net, ip with
  | .v4 n, .v4 i =>
      (cidrMask 32 len).map fun mask => n &&& mask == i &&& mask
  | .v6 n, .v6 i =>
      (cidrMask 128 len).map fun mask => n &&& mask == i &&& mask
  | _, _ => some false

/-! ## Ranges -/

/-- The address is of the family of `net` and shares its first `len` bits. -/
def InNet : IpAddr → Nat → IpAddr → Prop
  | .v4 n, len, .v4 i => SharesPrefix len n i
  | .v6 n, len, .v6 i => SharesPrefix len n i
  | _, _, _ => False

/-- `Ipv4Addr::to_ipv6_mapped`. -/
def mapped (bits : BitVec 32) : BitVec 128 :=
  0xffff#128 <<< 32 ||| bits.setWidth 128

/-- An IPv4 address and the IPv6 address that maps it. -/
inductive Equivalent : IpAddr → IpAddr → Prop
  | mapped (bits : BitVec 32) : Equivalent (.v4 bits) (.v6 (mapped bits))
  | unmapped (bits : BitVec 32) : Equivalent (.v6 (mapped bits)) (.v4 bits)

section Net

variable {net : IpAddr} {len : Nat} (hlen : len ≤ net.width)
include hlen

theorem cidrContains_iff {ip : IpAddr} :
    cidrContains net len ip = true ↔ InNet net len ip := by
  cases net <;> cases ip <;>
    simp only [cidrContains, InNet, beq_iff_eq, reduceCtorEq] <;>
    exact and_mask_eq_iff hlen

theorem cidrContainsChecked_eq (ip : IpAddr) :
    cidrContainsChecked net len ip = some (cidrContains net len ip) := by
  cases net with
  | v4 n =>
      cases ip with
      | v4 i => rw [cidrContainsChecked, cidrMask_eq (w := 32) hlen]; rfl
      | v6 i => rfl
  | v6 n =>
      cases ip with
      | v4 i => rfl
      | v6 i => rw [cidrContainsChecked, cidrMask_eq (w := 128) hlen]; rfl

end Net

theorem mapped_setWidth {bits : BitVec 128} (h : bits >>> 32 = 0xffff#128) :
    mapped (bits.setWidth 32) = bits := by
  rw [mapped, ← h]
  ext i hi
  by_cases hlow : i < 32
  · simp [hlow, BitVec.getLsbD_eq_getElem hi]
  · have hhigh : 32 + (i - 32) = i := by omega
    simp [hlow, hhigh, BitVec.getLsbD_eq_getElem hi]

/-- The canonical form is the address itself or the other one of its pair. -/
theorem canon_cases (a : IpAddr) : canon a = a ∨ Equivalent a (canon a) := by
  cases a with
  | v4 bits => exact .inl rfl
  | v6 bits =>
      by_cases hmapped : bits >>> 32 = 0xffff#128
      · have hpair := Equivalent.unmapped (bits.setWidth 32)
        rw [mapped_setWidth hmapped] at hpair
        exact .inr (by rwa [canon, if_pos hmapped])
      · exact .inl (if_neg hmapped)

/-- The two of a pair are not of one family, so no network has both. -/
theorem InNet.not_equivalent {net a b : IpAddr} {len : Nat}
    (h : InNet net len a) (hpair : Equivalent a b) : ¬ InNet net len b := by
  cases hpair <;> cases net <;> first | exact h.elim | exact id

/-! ## CIDR entries -/

section Entries

variable {parseIp : String → Option IpAddr} {raw endpoint : String}
  {addr lenText h p : List Char} {net a : IpAddr} {len : UInt8} {entry : Entry}
  {host : Host} {q : UInt16}

/-- A CIDR entry keeps the network and the length as they are written, and is
for every port. -/
theorem parseEntry_cidr
    (hraw : splitOnce '/' (trim raw.toList) = some (addr, lenText))
    (hnet : parseIp (String.ofList addr) = some net)
    (hlen : parseU8 lenText = some len)
    (hentry : parseEntry parseIp raw = .ok entry) :
    ∃ hle : len.toNat ≤ net.width, entry = ⟨.cidr net len.toNat hle, none⟩ := by
  simp only [parseEntry, hraw, parseCidr, hnet, hlen] at hentry
  split at hentry
  · cases hentry
  · split at hentry
    · next hle => exact ⟨hle, (Except.ok.inj hentry).symm⟩
    · cases hentry

/-- The address of an accepted endpoint is the one written, in its canonical
form. -/
theorem ip_of_parseEndpoint
    (hwritten : splitHostPort endpoint.toList = .ok (h, some p))
    (ha : parseIp (String.ofList h) = some a)
    (hendpoint : parseEndpoint parseIp endpoint = .ok (host, q)) :
    host = .ip (canon a) := by
  obtain ⟨h', p', hsplit, -, hhost⟩ := parseEndpoint_eq_ok_iff.mp hendpoint
  rw [hwritten] at hsplit
  cases hsplit
  have hmatch := (parseHost_eq_ok_iff.mp hhost).2
  rwa [ha] at hmatch

theorem check_singleton (entry : Entry)
    (hendpoint : parseEndpoint parseIp endpoint = .ok (host, q)) :
    (entry.matches host q = true →
      ParticipantAllowlist.check ⟨[entry]⟩ parseIp endpoint = .ok ()) ∧
    (entry.matches host q = false → ∃ e,
      ParticipantAllowlist.check ⟨[entry]⟩ parseIp endpoint =
        .error (.permissionDenied e)) := by
  constructor <;> intro hmatches <;>
    simp [ParticipantAllowlist.check, hendpoint, hmatches]

end Entries

/-- Of the addresses of its range, a CIDR entry lets exactly those pass that are
canonical as they are written.  It refuses an address that is outside together
with the other one of its pair.  No shift is by the whole width of a word. -/
theorem cidr_covers_range (parseIp : String → Option IpAddr)
    {raw endpoint : String} {addr lenText h p : List Char} {net a : IpAddr}
    {len : UInt8} {entry : Entry} {host : Host} {q : UInt16}
    (hraw : splitOnce '/' (trim raw.toList) = some (addr, lenText))
    (hnet : parseIp (String.ofList addr) = some net)
    (hlen : parseU8 lenText = some len)
    (hentry : parseEntry parseIp raw = .ok entry)
    (hwritten : splitHostPort endpoint.toList = .ok (h, some p))
    (ha : parseIp (String.ofList h) = some a)
    (hendpoint : parseEndpoint parseIp endpoint = .ok (host, q)) :
    (InNet net len.toNat a →
      (ParticipantAllowlist.check ⟨[entry]⟩ parseIp endpoint = .ok () ↔
        canon a = a)) ∧
    (¬ InNet net len.toNat a → (∀ b, Equivalent a b → ¬ InNet net len.toNat b) →
      ∃ e, ParticipantAllowlist.check ⟨[entry]⟩ parseIp endpoint =
        .error (.permissionDenied e)) ∧
    ∀ b, cidrContainsChecked net len.toNat b =
      some (cidrContains net len.toNat b) := by
  obtain ⟨hle, rfl⟩ := parseEntry_cidr hraw hnet hlen hentry
  obtain rfl := ip_of_parseEndpoint hwritten ha hendpoint
  obtain ⟨haccept, hrefuse⟩ :=
    check_singleton ⟨.cidr net len.toNat hle, none⟩ hendpoint
  have hmatches : Entry.matches ⟨.cidr net len.toNat hle, none⟩ (.ip (canon a)) q =
      cidrContains net len.toNat (canon a) := rfl
  rw [hmatches] at haccept hrefuse
  refine ⟨fun hin => ⟨fun hok => ?_, fun hcanon => haccept ?_⟩,
    fun hout hother => hrefuse ?_, cidrContainsChecked_eq hle⟩
  · rcases canon_cases a with heq | hpair
    · exact heq
    · have hout : cidrContains net len.toNat (canon a) = false := by
        rw [Bool.eq_false_iff, ne_eq, cidrContains_iff hle]
        exact hin.not_equivalent hpair
      obtain ⟨e, herror⟩ := hrefuse hout
      cases hok.symm.trans herror
  · rwa [hcanon, cidrContains_iff hle]
  · rw [Bool.eq_false_iff, ne_eq, cidrContains_iff hle]
    rcases canon_cases a with heq | hpair
    · rwa [heq]
    · exact hother _ hpair

instance {w len : Nat} {x y : BitVec w} : Decidable (SharesPrefix len x y) :=
  inferInstanceAs (Decidable (∀ i < len, x.getMsbD i = y.getMsbD i))

def netLiterals (text : String) : Option IpAddr :=
  if text = "10.0.0.0" then some (.v4 0x0a000000#32)
  else if text = "10.0.0.5" then some (.v4 0x0a000005#32)
  else if text = "::ffff:10.0.0.0" then some (.v6 (mapped 0x0a000000#32))
  else if text = "::ffff:10.0.0.5" then some (.v6 (mapped 0x0a000005#32))
  else none

def privateEntry : Entry :=
  ⟨.cidr (.v4 0x0a000000#32) 8 (by decide), none⟩

theorem cidr_covers_range_private :
    parseEntry netLiterals "10.0.0.0/8" = .ok privateEntry ∧
      ParticipantAllowlist.check ⟨[privateEntry]⟩ netLiterals "10.0.0.5:80" =
        .ok () := by
  have hentry : parseEntry netLiterals "10.0.0.0/8" = .ok privateEntry := by rfl
  have hcovers := cidr_covers_range netLiterals
    (show splitOnce '/' (trim "10.0.0.0/8".toList) =
      some ("10.0.0.0".toList, "8".toList) by rfl)
    (show netLiterals (String.ofList "10.0.0.0".toList) =
      some (.v4 0x0a000000#32) by decide +kernel)
    (show parseU8 "8".toList = some 8 by decide +kernel) hentry
    (show splitHostPort "10.0.0.5:80".toList =
      .ok ("10.0.0.5".toList, some "80".toList) by rfl)
    (show netLiterals (String.ofList "10.0.0.5".toList) =
      some (.v4 0x0a000005#32) by decide +kernel)
    (show parseEndpoint netLiterals "10.0.0.5:80" =
      .ok (.ip (.v4 0x0a000005#32), 80) by rfl)
  refine ⟨hentry, (hcovers.1 ?_).mpr rfl⟩
  show SharesPrefix 8 0x0a000000#32 0x0a000005#32
  decide

def mappedEntry : Entry :=
  ⟨.cidr (.v6 (mapped 0x0a000000#32)) 104 (by decide), none⟩

/-- The address is in the network as both are written, and is refused. -/
theorem mappedRange_is_refused :
    parseEntry netLiterals "::ffff:10.0.0.0/104" = .ok mappedEntry ∧
      InNet (.v6 (mapped 0x0a000000#32)) 104 (.v6 (mapped 0x0a000005#32)) ∧
      parseEndpoint netLiterals "[::ffff:10.0.0.5]:80" =
        .ok (.ip (.v4 0x0a000005#32), 80) ∧
      ∃ e, ParticipantAllowlist.check ⟨[mappedEntry]⟩ netLiterals
        "[::ffff:10.0.0.5]:80" = .error (.permissionDenied e) := by
  refine ⟨by rfl, ?_, by rfl, _, by rfl⟩
  show SharesPrefix 104 (mapped 0x0a000000#32) (mapped 0x0a000005#32)
  decide +kernel

end Coordin8.Allowlist
