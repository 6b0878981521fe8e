import Coordin8.Support.Labels
import Coordin8.Support.Results
import Coordin8.Txn.Allowlist
import Mathlib.Tactic.IntervalCases

/-!
# Which texts are endpoints

`parse_endpoint` is meant to accept `host:port` and `[v6]:port` and nothing
else; the text it accepts is later dialled as it is.  This module says what those
texts are, and where the parser accepts more: the parser of numbers allows a
plus sign, and brackets may stand around any host.

The parser of IP literals is that of the standard library.  It is a parameter,
with the characters of its literals as its only properties.
-/

namespace Coordin8.Allowlist

open Support

/-! ## Host names -/

def isNameChar (c : Char) : Bool :=
  c.isAlphanum || c == '-' || c == '_'

/-- Labels that are not empty, joined by dots. -/
def IsName (h : List Char) : Prop :=
  ∃ labels : List (List Char), labels ≠ [] ∧
    (∀ label ∈ labels, label ≠ [] ∧ ∀ c ∈ label, isNameChar c = true) ∧
    h = ['.'].intercalate labels

variable {h p s : List Char}

theorem validHostname_eq_true_iff :
    validHostname h = true ↔ h ≠ [] ∧
      ∀ label ∈ h.splitOn '.', label ≠ [] ∧ ∀ c ∈ label, isNameChar c = true := by
  simp [validHostname, isNameChar]

theorem validHostname_iff_isName : validHostname h = true ↔ IsName h := by
  rw [validHostname_eq_true_iff]
  constructor
  · rintro ⟨-, hlabels⟩
    exact ⟨h.splitOn '.', List.splitOn_ne_nil _ _, hlabels,
      (List.intercalate_splitOn '.').symm⟩
  · rintro ⟨labels, hne, hlabels, rfl⟩
    have hsplit : (['.'].intercalate labels).splitOn '.' = labels := by
      refine List.splitOn_intercalate '.' (fun label hlabel hdot => ?_) hne
      exact absurd ((hlabels label hlabel).2 '.' hdot) (by decide)
    refine ⟨fun hnil => ?_, by rwa [hsplit]⟩
    rw [hnil, List.splitOn_nil] at hsplit
    exact (hlabels [] (hsplit ▸ List.mem_singleton_self [])).1 rfl

/-- `to_ascii_lowercase` changes the upper-case letters alone, and makes letters
of them. -/
theorem toLower_cases (c : Char) :
    c.toLower = c ∨ isNameChar c = true ∧ isNameChar c.toLower = true := by
  by_cases hupper : 65 ≤ c.toNat ∧ c.toNat ≤ 90
  · obtain ⟨hlo, hhi⟩ := hupper
    rw [← Char.ofNat_toNat c]
    generalize c.toNat = n at hlo hhi
    right
    interval_cases n <;> decide
  · left
    have hval : ¬ (c.val ≥ 'A'.val ∧ c.val ≤ 'Z'.val) := by
      rw [ge_iff_le, UInt32.le_iff_toNat_le, UInt32.le_iff_toNat_le]
      exact hupper
    exact dif_neg hval

theorem isNameChar_toLower (c : Char) : isNameChar c.toLower = isNameChar c := by
  rcases toLower_cases c with h | ⟨h, hlower⟩
  · rw [h]
  · rw [h, hlower]

theorem toLower_eq_dot (c : Char) : c.toLower = '.' ↔ c = '.' := by
  have hdot : isNameChar '.' = false := by decide
  rcases toLower_cases c with h | ⟨h, hlower⟩
  · rw [h]
  · refine ⟨fun heq => ?_, fun heq => ?_⟩
    · rw [heq, hdot] at hlower
      cases hlower
    · rw [heq, hdot] at h
      cases h

theorem splitOn_toLower (h : List Char) :
    (h.map Char.toLower).splitOn '.' =
      (h.splitOn '.').map (List.map Char.toLower) :=
  splitOn_map toLower_eq_dot h

theorem validHostname_toLower :
    validHostname (h.map Char.toLower) = true ↔ validHostname h = true := by
  simp only [validHostname_eq_true_iff, splitOn_toLower, List.mem_map,
    forall_exists_index, and_imp, forall_apply_eq_imp_iff₂, ne_eq,
    List.map_eq_nil_iff, isNameChar_toLower]

/-! ## Ports -/

/-- The number that a row of decimal digits writes. -/
def decimal (digits : List Char) : Nat :=
  digits.foldl (fun n c => 10 * n + (c.toNat - '0'.toNat)) 0

/-- Decimal digits that write a number from `1` to `65535`. -/
structure IsPort (p : List Char) : Prop where
  ne_nil : p ≠ []
  digits : ∀ c ∈ p, c.isDigit = true
  pos : 1 ≤ decimal p
  le : decimal p ≤ 65535

/-- The parser of numbers skips one plus sign. -/
def stripPlus (p : List Char) : List Char :=
  if p.head? = some '+' then p.tail else p

theorem parsePort_eq_ok_iff {n : UInt16} :
    parsePort p = .ok n ↔ parseU16 p = some n ∧ n ≠ 0 := by
  unfold parsePort
  split <;> simp_all
  rintro rfl
  assumption

theorem parseU16_eq_some_iff {n : UInt16} :
    parseU16 p = some n ↔ stripPlus p ≠ [] ∧
      (∀ c ∈ stripPlus p, c.isDigit = true) ∧ decimal (stripPlus p) < 2 ^ 16 ∧
      UInt16.ofNat (decimal (stripPlus p)) = n := by
  simp [parseU16, stripPlus, decimal, and_assoc]

theorem exists_parsePort_iff :
    (∃ n, parsePort p = .ok n) ↔ IsPort (stripPlus p) := by
  simp only [parsePort_eq_ok_iff, parseU16_eq_some_iff]
  constructor
  · rintro ⟨n, ⟨hne, hdigits, hlt, rfl⟩, hn0⟩
    refine ⟨hne, hdigits, Nat.one_le_iff_ne_zero.mpr fun h0 => hn0 ?_, by omega⟩
    rw [h0]
    rfl
  · rintro ⟨hne, hdigits, hpos, hle⟩
    refine ⟨_, ⟨hne, hdigits, by omega, rfl⟩, fun h0 => ?_⟩
    have hnat := congrArg UInt16.toNat h0
    rw [UInt16.toNat_ofNat', Nat.mod_eq_of_lt (by omega)] at hnat
    exact absurd hnat (Nat.one_le_iff_ne_zero.mp hpos)

theorem IsPort.colon_notMem (h : IsPort p) : ':' ∉ p :=
  fun hmem => absurd (h.digits ':' hmem) (by decide)

theorem IsPort.plus_notMem (h : IsPort p) : '+' ∉ p :=
  fun hmem => absurd (h.digits '+' hmem) (by decide)

theorem IsPort.stripPlus (h : IsPort p) : IsPort (stripPlus p) := by
  have heq : Allowlist.stripPlus p = p :=
    if_neg fun hhead => h.plus_notMem (List.mem_of_head? hhead)
  rwa [heq]

theorem IsPort.of_stripPlus (h : IsPort (Allowlist.stripPlus p)) :
    IsPort p ∨ ∃ digits, p = '+' :: digits ∧ IsPort digits := by
  unfold Allowlist.stripPlus at h
  split at h
  · next hhead => exact .inr ⟨p.tail, (List.cons_head?_tail hhead).symm, h⟩
  · exact .inl h

/-! ## The parts of an endpoint -/

theorem splitOnce_eq_some_iff {c : Char} {a b : List Char} :
    splitOnce c s = some (a, b) ↔ s = a ++ c :: b ∧ c ∉ a := by
  induction s generalizing a with
  | nil => simp [splitOnce]
  | cons x s ih =>
      by_cases hx : x = c
      · subst hx
        cases a with
        | nil => simp [splitOnce, eq_comm]
        | cons y a => simp +contextual [splitOnce, eq_comm]
      · cases a with
        | nil => simp [splitOnce, hx]
        | cons y a => simp [splitOnce, hx, ih]; grind

theorem splitHostPort_bracket {rest : List Char} :
    splitHostPort ('[' :: rest) = .ok (h, some p) ↔
      rest = h ++ ']' :: ':' :: p ∧ ']' ∉ h := by
  rw [← splitOnce_eq_some_iff]
  simp only [splitHostPort]
  split <;> simp_all

theorem splitHostPort_colon (hs : s.head? ≠ some '[') :
    splitHostPort s = .ok (h, some p) ↔
      s = h ++ ':' :: p ∧ ':' ∉ h ∧ ':' ∉ p := by
  have hsplit : splitHostPort s = .ok (h, some p) ↔
      s.count ':' = 1 ∧ splitOnce ':' s = some (h, p) := by
    unfold splitHostPort
    split
    · exact absurd rfl hs
    · split <;> simp_all
  rw [hsplit, splitOnce_eq_some_iff]
  constructor
  · rintro ⟨hcount, rfl, hh⟩
    rw [List.count_append, List.count_cons_self] at hcount
    exact ⟨rfl, hh, List.count_eq_zero.mp (by omega)⟩
  · rintro ⟨rfl, hh, hp⟩
    rw [List.count_append, List.count_cons_self, List.count_eq_zero.mpr hh,
      List.count_eq_zero.mpr hp]
    exact ⟨rfl, rfl, hh⟩

section Parser

variable {parseIp : String → Option IpAddr}

/-- An endpoint is accepted exactly if it has a host and a port, and both are
accepted. -/
theorem parseEndpoint_eq_ok_iff {endpoint : String} {host : Host} {q : UInt16} :
    parseEndpoint parseIp endpoint = .ok (host, q) ↔
      ∃ h p, splitHostPort endpoint.toList = .ok (h, some p) ∧
        parsePort p = .ok q ∧ parseHost parseIp h = .ok host := by
  have hnone : 1 < endpoint.toList.count ':' →
      endpoint.toList.head? ≠ some '[' → ∀ h p,
      splitHostPort endpoint.toList ≠ .ok (h, some p) := by
    intro hcount hhead h p heq
    obtain ⟨hs, hh, hp⟩ := (splitHostPort_colon hhead).mp heq
    rw [hs, List.count_append, List.count_cons_self,
      List.count_eq_zero.mpr hh, List.count_eq_zero.mpr hp] at hcount
    omega
  unfold parseEndpoint
  dsimp only
  split
  · next hbare => simp [hnone hbare.1 hbare.2]
  · simp only [bind_eq_ok_iff, mapError_eq_ok_iff]
    constructor
    · rintro ⟨⟨h, port⟩, hsplit, p, hport, n, hn, host', hhost, heq⟩
      obtain ⟨rfl, rfl⟩ := Prod.mk.inj (Except.ok.inj heq)
      cases port with
      | none => cases hport
      | some p' =>
          obtain rfl := Except.ok.inj hport
          exact ⟨h, p', hsplit, hn, hhost⟩
    · rintro ⟨h, p, hsplit, hn, hhost⟩
      exact ⟨(h, some p), hsplit, p, rfl, q, hn, host, hhost, rfl⟩

/-- A host is an IP literal or a name; the name is kept in lower case. -/
theorem parseHost_eq_ok_iff {host : Host} :
    parseHost parseIp h = .ok host ↔ h ≠ [] ∧
      match parseIp (String.ofList h) with
      | some ip => host = .ip (canon ip)
      | none => IsName h ∧ host = .name (String.ofList (h.map Char.toLower)) := by
  simp only [parseHost]
  split
  · next hnil => simp [hnil]
  · next hne =>
    cases hip : parseIp (String.ofList h) with
    | some ip => simp [hne, eq_comm (a := host)]
    | none =>
        have hname : validHostname (h.map Char.toLower) = true ↔ IsName h :=
          validHostname_toLower.trans validHostname_iff_isName
        by_cases hvalid : validHostname (h.map Char.toLower) = true
        · simp [hne, hvalid, hname.mp hvalid, eq_comm (a := host)]
        · simp [hvalid, mt hname.mpr hvalid]

end Parser

/-! ## The language of endpoints -/

/-- A parser of IP literals, with the characters of what it accepts. -/
structure IpParser where
  parse : String → Option IpAddr
  /-- An IPv4 literal has digits and dots. -/
  v4_chars : ∀ s bits, parse (String.ofList s) = some (.v4 bits) →
    s ≠ [] ∧ ∀ c ∈ s, c.isDigit = true ∨ c = '.'
  /-- An IPv6 literal has a colon, and otherwise hexadecimal digits and dots. -/
  v6_chars : ∀ s bits, parse (String.ofList s) = some (.v6 bits) →
    ':' ∈ s ∧ ∀ c ∈ s, c.isHexDigit = true ∨ c = ':' ∨ c = '.'

section Language

variable (ip : IpParser)

theorem IpParser.chars {a : IpAddr} (h : ip.parse (String.ofList s) = some a) :
    ∀ c ∈ s, c.isHexDigit = true ∨ c = ':' ∨ c = '.' := by
  intro c hc
  cases a with
  | v4 bits =>
      rcases (ip.v4_chars s bits h).2 c hc with hdigit | hdot
      · exact .inl (by simp [Char.isHexDigit, hdigit])
      · exact .inr (.inr hdot)
  | v6 bits => exact (ip.v6_chars s bits h).2 c hc

def IpParser.IsV4 (s : List Char) : Prop :=
  ∃ bits, ip.parse (String.ofList s) = some (.v4 bits)

def IpParser.IsV6 (s : List Char) : Prop :=
  ∃ bits, ip.parse (String.ofList s) = some (.v6 bits)

/-- The texts `name:port`, `ipv4:port` and `[ipv6]:port`. -/
inductive EndpointText : List Char → Prop
  | name {h p : List Char} : IsName h → IsPort p → EndpointText (h ++ ':' :: p)
  | v4 {h p : List Char} : ip.IsV4 h → IsPort p → EndpointText (h ++ ':' :: p)
  | v6 {h p : List Char} : ip.IsV6 h → IsPort p →
      EndpointText ('[' :: h ++ ']' :: ':' :: p)

/-- The texts that the parser accepts beyond those: a plus sign before the port,
and brackets around a name or an IPv4 literal. -/
inductive LooseText : List Char → Prop
  | plus {h p : List Char} : IsName h ∨ ip.IsV4 h → IsPort p →
      LooseText (h ++ ':' :: '+' :: p)
  | bracketed {h p : List Char} : IsName h ∨ ip.IsV4 h → IsPort p →
      LooseText ('[' :: h ++ ']' :: ':' :: p)
  | bracketedPlus {h p : List Char} : IsName h ∨ ip.IsV4 h ∨ ip.IsV6 h →
      IsPort p → LooseText ('[' :: h ++ ']' :: ':' :: '+' :: p)

variable {ip} {h p : List Char}

/-- Only characters of names, so neither a colon nor a bracket. -/
structure Plain (h : List Char) : Prop where
  ne_nil : h ≠ []
  chars : ∀ c ∈ h, isNameChar c = true ∨ c = '.'

theorem IsName.plain (hname : IsName h) : Plain h := by
  have hne := (validHostname_eq_true_iff.mp (validHostname_iff_isName.mpr hname)).1
  obtain ⟨labels, -, hlabels, rfl⟩ := hname
  refine ⟨hne, fun c hc => ?_⟩
  rcases mem_intercalate hc with hdot | ⟨label, hlabel, hc⟩
  · exact .inr (List.mem_singleton.mp hdot)
  · exact .inl ((hlabels label hlabel).2 c hc)

theorem IpParser.IsV4.plain (hv4 : ip.IsV4 h) : Plain h := by
  obtain ⟨bits, hparse⟩ := hv4
  obtain ⟨hne, hchars⟩ := ip.v4_chars h bits hparse
  refine ⟨hne, fun c hc => (hchars c hc).imp_left fun hdigit => ?_⟩
  simp [isNameChar, Char.isAlphanum, hdigit]

theorem IpParser.IsV6.close_notMem (hv6 : ip.IsV6 h) : ']' ∉ h := by
  obtain ⟨bits, hparse⟩ := hv6
  exact fun hmem => absurd ((ip.v6_chars h bits hparse).2 ']' hmem) (by decide)

theorem IpParser.IsV6.colon_mem (hv6 : ip.IsV6 h) : ':' ∈ h :=
  hv6.elim fun bits hparse => (ip.v6_chars h bits hparse).1

namespace Plain

variable (hplain : Plain h)
include hplain

theorem notMem {c : Char} (hname : isNameChar c = false) (hdot : c ≠ '.') :
    c ∉ h := by
  intro hmem
  rcases hplain.chars c hmem with hc | hc
  · rw [hname] at hc
    cases hc
  · exact hdot hc

theorem colon_notMem : ':' ∉ h := hplain.notMem (by decide) (by decide)

theorem head?_ne : (h ++ ':' :: p).head? ≠ some '[' := by
  rw [List.head?_append_of_ne_nil _ hplain.ne_nil]
  exact fun hhead =>
    hplain.notMem (by decide) (by decide) (List.mem_of_head? hhead)

theorem splitHostPort_eq (hcolon : ':' ∉ p) :
    splitHostPort (h ++ ':' :: p) = .ok (h, some p) :=
  (splitHostPort_colon hplain.head?_ne).mpr ⟨rfl, hplain.colon_notMem, hcolon⟩

theorem close_notMem : ']' ∉ h := hplain.notMem (by decide) (by decide)

end Plain

theorem plain_of_or (hhost : IsName h ∨ ip.IsV4 h) : Plain h :=
  hhost.elim IsName.plain IpParser.IsV4.plain

theorem exists_parseHost_iff :
    (∃ host, parseHost ip.parse h = .ok host) ↔
      IsName h ∨ ip.IsV4 h ∨ ip.IsV6 h := by
  simp only [parseHost_eq_ok_iff, exists_and_left]
  constructor
  · rintro ⟨hne, host, hhost⟩
    cases hip : ip.parse (String.ofList h) with
    | none =>
        rw [hip] at hhost
        exact .inl hhost.1
    | some a =>
        right
        cases a with
        | v4 bits => exact .inl ⟨bits, hip⟩
        | v6 bits => exact .inr ⟨bits, hip⟩
  · intro hhost
    have hne : h ≠ [] := by
      rcases hhost with hname | hv4 | hv6
      · exact hname.plain.ne_nil
      · exact hv4.plain.ne_nil
      · exact List.ne_nil_of_mem hv6.colon_mem
    refine ⟨hne, ?_⟩
    cases hip : ip.parse (String.ofList h) with
    | some a => exact ⟨_, rfl⟩
    | none =>
        have hname : IsName h := by
          simpa [IpParser.IsV4, IpParser.IsV6, hip] using hhost
        exact ⟨_, hname, rfl⟩

variable (ip) in
/-- The text has a host and a port, both accepted by their parsers. -/
def Accepted (s : List Char) : Prop :=
  ∃ h p, splitHostPort s = .ok (h, some p) ∧ IsPort (stripPlus p) ∧
    (IsName h ∨ ip.IsV4 h ∨ ip.IsV6 h)

theorem exists_parseEndpoint_iff {endpoint : String} :
    (∃ r, parseEndpoint ip.parse endpoint = .ok r) ↔
      Accepted ip endpoint.toList := by
  simp only [Accepted, Prod.exists, parseEndpoint_eq_ok_iff,
    ← exists_parsePort_iff, ← exists_parseHost_iff]
  constructor
  · rintro ⟨host, q, h, p, hsplit, hport, hhost⟩
    exact ⟨h, p, hsplit, ⟨q, hport⟩, ⟨host, hhost⟩⟩
  · rintro ⟨h, p, hsplit, ⟨q, hport⟩, ⟨host, hhost⟩⟩
    exact ⟨host, q, h, p, hsplit, hport, hhost⟩

theorem splitHostPort_brackets (hhost : IsName h ∨ ip.IsV4 h ∨ ip.IsV6 h) :
    splitHostPort ('[' :: h ++ ']' :: ':' :: p) = .ok (h, some p) := by
  refine splitHostPort_bracket.mpr ⟨rfl, ?_⟩
  rcases or_assoc.mpr hhost with hplain | hv6
  · exact (plain_of_or hplain).close_notMem
  · exact hv6.close_notMem

/-- The language of the parser, for every text. -/
theorem accepted_iff : Accepted ip s ↔ EndpointText ip s ∨ LooseText ip s := by
  constructor
  · rintro ⟨h, p, hsplit, hport, hhost⟩
    by_cases hbracket : ∃ rest, s = '[' :: rest
    · obtain ⟨rest, rfl⟩ := hbracket
      obtain ⟨rfl, -⟩ := splitHostPort_bracket.mp hsplit
      rcases hport.of_stripPlus with hport | ⟨digits, rfl, hport⟩
      · rcases or_assoc.mpr hhost with hplain | hv6
        · exact .inr (.bracketed hplain hport)
        · exact .inl (.v6 hv6 hport)
      · exact .inr (.bracketedPlus hhost hport)
    · have hhead : s.head? ≠ some '[' := by
        intro hhead
        exact hbracket ⟨s.tail, (List.cons_head?_tail hhead).symm⟩
      obtain ⟨rfl, hcolon, -⟩ := (splitHostPort_colon hhead).mp hsplit
      have hplain : IsName h ∨ ip.IsV4 h :=
        (or_assoc.mpr hhost).resolve_right fun hv6 => hcolon hv6.colon_mem
      rcases hport.of_stripPlus with hport | ⟨digits, rfl, hport⟩
      · exact .inl (hplain.elim (.name · hport) (.v4 · hport))
      · exact .inr (.plus hplain hport)
  · rintro ((⟨hname, hport⟩ | ⟨hv4, hport⟩ | ⟨hv6, hport⟩) |
      (⟨hplain, hport⟩ | ⟨hplain, hport⟩ | ⟨hhost, hport⟩))
    · exact ⟨_, _, hname.plain.splitHostPort_eq hport.colon_notMem,
        hport.stripPlus, .inl hname⟩
    · exact ⟨_, _, hv4.plain.splitHostPort_eq hport.colon_notMem,
        hport.stripPlus, .inr (.inl hv4)⟩
    · exact ⟨_, _, splitHostPort_brackets (.inr (.inr hv6)), hport.stripPlus,
        .inr (.inr hv6)⟩
    · exact ⟨_, _, (plain_of_or hplain).splitHostPort_eq
          (by simp [hport.colon_notMem]), hport, hplain.imp_right .inl⟩
    · exact ⟨_, _, splitHostPort_brackets (hplain.imp_right .inl),
        hport.stripPlus, hplain.imp_right .inl⟩
    · exact ⟨_, _, splitHostPort_brackets hhost, hport, hhost⟩

/-- Between brackets stands an IPv6 literal, and the port has no sign. -/
theorem EndpointText.parts (htext : EndpointText ip s) :
    ∃ h p, splitHostPort s = .ok (h, some p) ∧ '+' ∉ p ∧
      (s.head? = some '[' → ':' ∈ h) := by
  cases htext with
  | name hname hport =>
      exact ⟨_, _, hname.plain.splitHostPort_eq hport.colon_notMem,
        hport.plus_notMem, fun hhead => absurd hhead hname.plain.head?_ne⟩
  | v4 hv4 hport =>
      exact ⟨_, _, hv4.plain.splitHostPort_eq hport.colon_notMem,
        hport.plus_notMem, fun hhead => absurd hhead hv4.plain.head?_ne⟩
  | v6 hv6 hport =>
      exact ⟨_, _, splitHostPort_brackets (.inr (.inr hv6)), hport.plus_notMem,
        fun _ => hv6.colon_mem⟩

theorem LooseText.not_endpointText (hloose : LooseText ip s) :
    ¬ EndpointText ip s := by
  intro htext
  obtain ⟨h, p, hsplit, hplus, hcolon⟩ := htext.parts
  cases hloose with
  | plus hplain hport =>
      rw [(plain_of_or hplain).splitHostPort_eq (by simp [hport.colon_notMem])]
        at hsplit
      cases hsplit
      exact hplus List.mem_cons_self
  | bracketed hplain hport =>
      rw [splitHostPort_brackets (hplain.imp_right .inl)] at hsplit
      cases hsplit
      exact (plain_of_or hplain).colon_notMem (hcolon rfl)
  | bracketedPlus hhost hport =>
      rw [splitHostPort_brackets hhost] at hsplit
      cases hsplit
      exact hplus List.mem_cons_self

end Language

/-- An endpoint is accepted exactly if it is a name and a port, an IPv4 literal
and a port, or a bracketed IPv6 literal and a port; or it is a loose text, which
is none of these. -/
theorem parseEndpoint_accepts (ip : IpParser) (endpoint : String) :
    ((∃ r, parseEndpoint ip.parse endpoint = .ok r) ↔
      EndpointText ip endpoint.toList ∨ LooseText ip endpoint.toList) ∧
    (LooseText ip endpoint.toList → ¬ EndpointText ip endpoint.toList) := by
  rw [exists_parseEndpoint_iff]
  exact ⟨accepted_iff, LooseText.not_endpointText⟩

/-- A parser that knows two literals. -/
def twoLiterals : IpParser where
  parse s :=
    if s = "10.0.0.5" then some (.v4 0x0a000005#32)
    else if s = "::1" then some (.v6 1#128)
    else none
  v4_chars := by
    intro s bits h
    split_ifs at h with h4
    · obtain rfl : s = "10.0.0.5".toList := by rw [← h4, String.toList_ofList]
      refine ⟨by decide +kernel, fun c hc => ?_⟩
      have hall : ("10.0.0.5".toList.all fun c => c.isDigit || c == '.') = true := by
        decide +kernel
      simpa only [Bool.or_eq_true, beq_iff_eq] using List.all_eq_true.mp hall c hc
    · cases h
  v6_chars := by
    intro s bits h
    split_ifs at h with h4 h6
    · cases h
    · obtain rfl : s = "::1".toList := by rw [← h6, String.toList_ofList]
      refine ⟨by decide +kernel, fun c hc => ?_⟩
      have hall : ("::1".toList.all fun c => c.isHexDigit || c == ':') = true := by
        decide +kernel
      have hc := List.all_eq_true.mp hall c hc
      simp only [Bool.or_eq_true, beq_iff_eq] at hc
      exact hc.imp_right .inl

theorem isPort_eighty : IsPort ['8', '0'] :=
  ⟨by decide, List.all_eq_true.mp rfl, by decide, by decide⟩

/-- The loopback address is an endpoint. -/
theorem parseEndpoint_accepts_loopback :
    (∃ r, parseEndpoint twoLiterals.parse "[::1]:80" = .ok r) ∧
      ¬ LooseText twoLiterals "[::1]:80".toList := by
  have htext : EndpointText twoLiterals "[::1]:80".toList :=
    .v6 (h := "::1".toList) ⟨1, by decide +kernel⟩ isPort_eighty
  obtain ⟨haccepted, hloose⟩ := parseEndpoint_accepts twoLiterals "[::1]:80"
  exact ⟨haccepted.mpr (.inl htext), fun h => hloose h htext⟩

/-- The parser accepts a signed port, and a name or an IPv4 literal in
brackets. -/
theorem looseEndpoints_accepted :
    (parseEndpoint twoLiterals.parse "host:+80" = .ok (.name "host", 80) ∧
      ¬ EndpointText twoLiterals "host:+80".toList) ∧
    (parseEndpoint twoLiterals.parse "[host]:80" = .ok (.name "host", 80) ∧
      ¬ EndpointText twoLiterals "[host]:80".toList) ∧
    (parseEndpoint twoLiterals.parse "[10.0.0.5]:80" =
        .ok (.ip (.v4 0x0a000005#32), 80) ∧
      ¬ EndpointText twoLiterals "[10.0.0.5]:80".toList) := by
  have hname : IsName "host".toList :=
    validHostname_iff_isName.mp (by decide +kernel)
  have hv4 : twoLiterals.IsV4 "10.0.0.5".toList :=
    ⟨0x0a000005#32, by decide +kernel⟩
  refine ⟨⟨by rfl, ?_⟩, ⟨by rfl, ?_⟩, by rfl, ?_⟩
  · exact (LooseText.plus (.inl hname) isPort_eighty).not_endpointText
  · exact (LooseText.bracketed (.inl hname) isPort_eighty).not_endpointText
  · exact (LooseText.bracketed (.inr hv4) isPort_eighty).not_endpointText

end Coordin8.Allowlist
