import OpenCmw.UriObject

/-!
# The port of a URI

`port()` reads the text behind the first ':' of the host as an `int`, with
`std::stoi`, and cuts it down to 16 bits; it is `noexcept`, so that a text
`std::stoi` throws on ends the program. It should return the number behind
the last ':' if that is a port, and nothing else. The two agree where there is
at most one ':' and behind it nothing or a port, and where the numbers happen
to be the same modulo 2^16; and a host in brackets is only kept whole if there
is no ':' in the brackets (`port_exact_iff`).
-/

namespace OpenCmw

open UInt16 (ofInt)
open UriObject (readPart)
open List Nat

variable (authority : Bytes)

/-- An authority without user and password. -/
def hostPart : Bytes :=
  if authority.contains (chr '@') then (authority.dropWhile (· != chr '@')).drop 1 else authority

/-- Host and port of an authority, `[<user>[:password]@]<host>[:port]`. -/
def parseHost : Bytes × Bytes :=
  let rest := hostPart authority
  let host := rest.takeWhile (· != chr ':')
  (host, rest.drop (host.length + 1))

/-! ## Splitting at a character -/

section Split

variable {c : UInt8} {s before after : Bytes}

theorem findFirstOf_of_notMem (h : c ∉ s) : findFirstOf [c] s 0 = s.length := by
  have hs : ∀ d ∈ s, [c].contains d = false := fun d hd => by
    simpa using fun heq : d = c => h (heq ▸ hd)
  have happ : findFirstOf [c] (s ++ []) 0 = s.length := findFirstOf_append hs nofun
  rwa [append_nil] at happ

theorem findFirstOf_append_cons (h : c ∉ before) :
    findFirstOf [c] (before ++ c :: after) 0 = before.length :=
  findFirstOf_append (fun d hd => by simpa using fun heq : d = c => h (heq ▸ hd))
    fun d hd => by simpa [eq_comm] using hd

theorem findFirstOf_append_left (set pre s : Bytes) :
    findFirstOf set (pre ++ s) pre.length = pre.length + findFirstOf set s 0 := by
  rw [findFirstOf, findFirstOf, drop_left, drop_zero, zero_add]

theorem bne_of_notMem (h : c ∉ s) : ∀ d ∈ s, (d != c) = true := fun _ hd =>
  bne_iff_ne.mpr fun heq => h (heq ▸ hd)

theorem takeWhile_ne_of_notMem (h : c ∉ s) : s.takeWhile (· != c) = s :=
  takeWhile_eq_self_iff.mpr (bne_of_notMem h)

theorem takeWhile_ne_append_cons (h : c ∉ before) :
    (before ++ c :: after).takeWhile (· != c) = before := by
  rw [takeWhile_append_of_pos (bne_of_notMem h), takeWhile_cons_of_neg (by simp), append_nil]

theorem hostPart_of_notMem (h : chr '@' ∉ s) : hostPart s = s := by
  rw [hostPart, if_neg (by simpa using h)]

theorem hostPart_append_cons (h : chr '@' ∉ before) :
    hostPart (before ++ chr '@' :: after) = after := by
  rw [hostPart, if_pos (by simp), dropWhile_append_of_pos (bne_of_notMem h), dropWhile_cons_of_neg (by simp), drop_succ_cons, drop_zero]

theorem parseHost_of_notMem (h : chr ':' ∉ hostPart s) : parseHost s = (hostPart s, []) := by
  rw [parseHost, takeWhile_ne_of_notMem h, drop_of_length_le (le_succ _)]

theorem parseHost_append_cons (h : chr ':' ∉ before) (hs : hostPart s = before ++ chr ':' :: after) :
    parseHost s = (before, after) := by
  rw [parseHost, hs, takeWhile_ne_append_cons h, ← drop_drop, drop_left, drop_succ_cons, drop_zero]

end Split

/-! ## What the views of host and port show -/

/-- The text of a part of an authority, if it has the part. -/
def authorityPartText (p : AuthorityPart) : Bytes :=
  (authoritySpan authority p).elim [] (·.text authority)

theorem UriObject.partText_eq {check : UriCheck} (u : UriObject check) (p : AuthorityPart) :
    u.partText p = authorityPartText u.authorityText p := by
  rw [partText, authorityPartText]
  split_ifs with hnil
  · rw [hnil]
    cases authoritySpan [] p <;> simp [Span.text]
  · rfl

/-- Where the host starts. -/
theorem authoritySpan_host (authority : Bytes) :
    ∃ hostStart, hostStart ≤ authority.length ∧ authority.drop hostStart = hostPart authority ∧
      authoritySpan authority .hostName =
        some ⟨hostStart, findFirstOf (str ":") authority hostStart - hostStart⟩ ∧
      authoritySpan authority .port =
        if findFirstOf (str ":") authority hostStart < authority.length then
          some ⟨findFirstOf (str ":") authority hostStart + 1,
            authority.length - (findFirstOf (str ":") authority hostStart + 1)⟩
        else none := by
  by_cases hat : chr '@' ∈ authority
  · obtain ⟨user, host, rfl, huser⟩ := eq_append_cons_of_mem hat
    have hsplit : findFirstOf (str "@") (user ++ chr '@' :: host) 0 = user.length :=
      findFirstOf_append_cons huser
    have hlt : user.length < (user ++ chr '@' :: host).length := by simp
    refine ⟨user.length + 1, hlt, ?_, ?_, ?_⟩
    · rw [hostPart_append_cons huser, ← drop_drop, drop_left]
      rfl
    · simp only [authoritySpan, hsplit, if_pos hlt]
    · simp only [authoritySpan, hsplit, if_pos hlt]
  · have hsplit : findFirstOf (str "@") authority 0 = authority.length := findFirstOf_of_notMem hat
    refine ⟨0, zero_le _, (hostPart_of_notMem hat).symm, ?_, ?_⟩
    · simp only [authoritySpan, hsplit, lt_irrefl, if_false]
    · simp only [authoritySpan, hsplit, lt_irrefl, if_false]

theorem authorityPartText_host (authority : Bytes) :
    (authorityPartText authority .hostName, authorityPartText authority .port) =
      parseHost authority := by
  obtain ⟨hostStart, hle, hdrop, hhost, hport⟩ := authoritySpan_host authority
  have hcolon : findFirstOf (str ":") authority hostStart =
      hostStart + findFirstOf (str ":") (hostPart authority) 0 := by
    rw [findFirstOf, findFirstOf, hdrop, drop_zero, zero_add]
  have hlen : authority.length = hostStart + (hostPart authority).length := by
    rw [← hdrop, length_drop]
    omega
  rw [hcolon, Nat.add_sub_cancel_left] at hhost
  rw [hcolon] at hport
  simp only [authorityPartText, hhost, hport, Option.elim_some, Span.text, hdrop]
  by_cases hmem : chr ':' ∈ hostPart authority
  · obtain ⟨host, port, hsplit, hhost⟩ := eq_append_cons_of_mem hmem
    have hk : findFirstOf (str ":") (hostPart authority) 0 = host.length := by
      rw [hsplit]
      exact findFirstOf_append_cons hhost
    have hlt : hostStart + host.length < authority.length := by
      rw [hlen, hsplit]
      simp
    have hrest : authority.drop (hostStart + host.length + 1) = port := by
      rw [add_assoc, ← drop_drop, hdrop, hsplit, ← drop_drop, drop_left]
      rfl
    rw [parseHost_append_cons hhost hsplit, hk, if_pos hlt, hsplit, take_left]
    simp only [Option.elim_some]
    rw [← length_drop, hrest, take_length]
  · have hk : findFirstOf (str ":") (hostPart authority) 0 = (hostPart authority).length :=
      findFirstOf_of_notMem hmem
    rw [parseHost_of_notMem hmem, hk, if_neg (by omega), take_length]
    rfl

/-! ## When `port()` is exact -/

/-- The text of a port. -/
def IsPort (t : Bytes) : Prop := t ≠ [] ∧ (∀ c ∈ t, isDigit c = true) ∧ ofDec t ≤ 65535
  deriving Decidable

/-- The port behind the last ':' of a host. -/
def lastPort (host : Bytes) : Option UInt16 :=
  let t := host.rtakeWhile (· != chr ':')
  if chr ':' ∈ host ∧ IsPort t then some (UInt16.ofNat (ofDec t)) else none

/-- A host in brackets, with or without a port. -/
def Bracketed (host inner : Bytes) : Prop :=
  ∃ rest, host = chr '[' :: inner ++ chr ']' :: rest ∧ chr ']' ∉ inner ∧
    (rest = [] ∨ rest.head? = some (chr ':'))

/-- `port()` returns the port behind the last ':' and `hostName()` keeps
brackets whole. -/
def UriObject.PortExact (u : UriObject .strict) : Prop :=
  u.answer .port = some (.number (lastPort (hostPart u.authorityText))) ∧
    ∀ inner, Bracketed (hostPart u.authorityText) inner →
      u.answer .hostName = some (.text (some (chr '[' :: inner ++ [chr ']'])))

/-- The number behind the first ':' of a host is the port behind the last. -/
def SamePort (host : Bytes) : Prop :=
  chr ':' ∉ host ∨ ∃ name port, host = name ++ chr ':' :: port ∧ chr ':' ∉ name ∧
    (port = [] ∨ IsPort port ∨ ∃ front last n, port = front ++ chr ':' :: last ∧ IsPort last ∧
      stoi port = some n ∧ n % 65536 = ofDec last)

theorem IsPort.colon_notMem {t : Bytes} (h : IsPort t) : chr ':' ∉ t := fun hmem =>
  absurd (h.2.1 _ hmem) (by decide)

theorem digit_is_no_sign {c : UInt8} (h : isDigit c = true) :
    isSpace c = false ∧ c ≠ chr '-' ∧ c ≠ chr '+' :=
  forall_uint8 (P := fun c => isDigit c = true → isSpace c = false ∧ c ≠ chr '-' ∧ c ≠ chr '+')
    (by decide +kernel) c h

theorem stoi_of_isPort {t : Bytes} (h : IsPort t) : stoi t = some (ofDec t : Int) := by
  obtain ⟨hne, hdigits, hle⟩ := h
  obtain ⟨c, cs, rfl⟩ := exists_cons_of_ne_nil hne
  obtain ⟨hspace, hminus, hplus⟩ := digit_is_no_sign (hdigits c mem_cons_self)
  have htake : (c :: cs).takeWhile isDigit = c :: cs := takeWhile_eq_self_iff.mpr hdigits
  have hhead {d : UInt8} (hd : c ≠ d) : ((c :: cs).head? == some d) = false := by simpa using hd
  unfold stoi
  rw [dropWhile_cons_of_neg (by simp [hspace])]
  dsimp only
  rw [hhead hminus, hhead hplus, Bool.or_false, if_neg Bool.false_ne_true,
    if_neg Bool.false_ne_true, htake, if_neg (by simp), if_pos (by omega)]

theorem ofInt_eq_ofNat_iff {n : Int} {m : Nat} (h : m ≤ 65535) :
    ofInt n = UInt16.ofNat m ↔ n % 65536 = m := by
  rw [ofInt, ← UInt16.toNat_inj, UInt16.toNat_ofNat', UInt16.toNat_ofNat']
  omega

theorem rtakeWhile_append_cons {c : UInt8} (before after : Bytes) :
    (before ++ c :: after).rtakeWhile (· != c) = after.rtakeWhile (· != c) := by
  have hcons : ([c] ++ before.reverse).takeWhile (· != c) = [] := by simp
  rw [rtakeWhile, rtakeWhile, reverse_append, reverse_cons, append_assoc,
    takeWhile_append, hcons, append_nil]
  split_ifs with hall
  · rw [( takeWhile_prefix _).eq_of_length hall]
  · rfl

/-- Where there is a ':', the port behind the last is looked for behind the
first. -/
theorem lastPort_append_cons (name port : Bytes) :
    lastPort (name ++ chr ':' :: port) = if IsPort (port.rtakeWhile (· != chr ':')) then
        some (UInt16.ofNat (ofDec (port.rtakeWhile (· != chr ':'))))
      else none := by
  rw [lastPort, rtakeWhile_append_cons]
  simp

theorem rtakeWhile_of_notMem {c : UInt8} {s : Bytes} (h : c ∉ s) : s.rtakeWhile (· != c) = s :=
  rtakeWhile_eq_self_iff.mpr (bne_of_notMem h)

/-- What stands behind the first ':', read as a port, against the last one. -/
theorem readPart_port_iff {name port : Bytes} :
    readPart .port port = some (.number (lastPort (name ++ chr ':' :: port))) ↔
      port = [] ∨ IsPort port ∨ ∃ front last n, port = front ++ chr ':' :: last ∧ IsPort last ∧
        stoi port = some n ∧ n % 65536 = ofDec last := by
  rw [lastPort_append_cons]
  rcases eq_or_ne port [] with rfl | hne
  · refine iff_of_true ?_ (.inl rfl)
    rw [rtakeWhile_nil, if_neg fun h => h.1 rfl]
    rfl
  have hread : readPart .port port = (stoi port).map fun n => .number (some (ofInt n)) := by
    rw [readPart, if_neg (by simpa using hne)]
  have hanswer {o : Option UInt16} : (stoi port).map (fun n => UriObject.Answer.number
      (some (ofInt n))) = some (.number o) ↔ ∃ n, stoi port = some n ∧ some (ofInt n) = o := by
    rw [Option.map_eq_some_iff]
    simp
  rw [hread, hanswer, or_iff_right hne]
  by_cases hcolon : chr ':' ∈ port
  · have hnot : ¬IsPort port := fun h => h.colon_notMem hcolon
    rw [or_iff_right hnot]
    constructor
    · rintro ⟨n, hn, heq⟩
      obtain ⟨last, front, hsplit, hlast⟩ :=
        eq_append_cons_of_mem (mem_reverse.mpr hcolon)
      obtain rfl : port = front.reverse ++ chr ':' :: last.reverse := by
        rw [← reverse_reverse port, hsplit]
        simp
      rw [rtakeWhile_append_cons, rtakeWhile_of_notMem (mt mem_reverse.mp hlast)] at heq
      split_ifs at heq with hport
      exact ⟨_, _, n, rfl, hport, hn, (ofInt_eq_ofNat_iff hport.2.2).mp (Option.some.inj heq)⟩
    · rintro ⟨front, last, n, rfl, hport, hn, hmod⟩
      refine ⟨n, hn, ?_⟩
      rw [rtakeWhile_append_cons, rtakeWhile_of_notMem hport.colon_notMem, if_pos hport]
      exact congrArg some ((ofInt_eq_ofNat_iff hport.2.2).mpr hmod)
  · rw [rtakeWhile_of_notMem hcolon]
    constructor
    · rintro ⟨n, -, hn⟩
      split_ifs at hn with hport
      exact .inl hport
    · rintro (hport | ⟨front, last, n, rfl, -⟩)
      · refine ⟨_, stoi_of_isPort hport, ?_⟩
        rw [if_pos hport]
        exact congrArg some ((ofInt_eq_ofNat_iff hport.2.2).mpr (by have := hport.2.2; omega))
      · exact absurd (by simp) hcolon

theorem readPort_iff {authority : Bytes} : readPart .port (parseHost authority).2 =
      some (.number (lastPort (hostPart authority))) ↔ SamePort (hostPart authority) := by
  by_cases hcolon : chr ':' ∈ hostPart authority
  · obtain ⟨name, port, hsplit, hname⟩ := eq_append_cons_of_mem hcolon
    rw [parseHost_append_cons hname hsplit, hsplit, readPart_port_iff]
    constructor
    · exact fun h => .inr ⟨name, port, rfl, hname, h⟩
    · rintro (hno | ⟨_, _, heq, hname', h⟩)
      · exact absurd (by simp) hno
      · have hsame := (parseHost_append_cons hname hsplit).symm.trans
          (parseHost_append_cons hname' (hsplit.trans heq))
        rwa [(Prod.mk.inj hsame).2]
  · rw [parseHost_of_notMem hcolon]
    refine iff_of_true ?_ (.inl hcolon)
    rw [lastPort, if_neg fun h => hcolon h.1]
    rfl

/-- Brackets are kept whole exactly if the host has no ':' before they end. -/
theorem bracket_host_iff {host inner : Bytes} (h : Bracketed host inner) :
    host.takeWhile (· != chr ':') = chr '[' :: inner ++ [chr ']'] ↔ chr ':' ∉ inner := by
  obtain ⟨rest, rfl, -, hrest⟩ := h
  constructor
  · intro heq hmem
    have hno : chr ':' ∉ chr '[' :: inner ++ [chr ']'] := by
      rw [← heq]
      exact fun hmem => absurd (mem_takeWhile_imp hmem) (by simp)
    exact hno (by simp [hmem])
  · intro hno
    have hbracket : chr ':' ∉ chr '[' :: inner ++ [chr ']'] := by
      simp only [cons_append, mem_cons, mem_append, not_mem_nil, or_false]
      rintro (h | h | h)
      · exact absurd h (by decide)
      · exact hno h
      · exact absurd h (by decide)
    have hsplit : chr '[' :: inner ++ chr ']' :: rest = (chr '[' :: inner ++ [chr ']']) ++ rest := by
      simp
    rw [hsplit]
    rcases hrest with rfl | hcolon
    · rw [append_nil, takeWhile_ne_of_notMem hbracket]
    · obtain ⟨port, rfl⟩ : ∃ port, rest = chr ':' :: port := by
        cases rest with
        | nil => cases hcolon
        | cons c port => exact ⟨port, by rw [Option.some.inj hcolon]⟩
      exact takeWhile_ne_append_cons hbracket

/-- `port()` is exact and brackets are kept exactly if the number behind the
first ':' is the port behind the last and there is no ':' in brackets. -/
theorem port_exact_iff {u : UriObject .strict} (hu : u.Made) :
    u.PortExact ↔ SamePort (hostPart u.authorityText) ∧
      ∀ inner, Bracketed (hostPart u.authorityText) inner → chr ':' ∉ inner := by
  obtain ⟨hhost, hport⟩ := Prod.ext_iff.mp (authorityPartText_host u.authorityText)
  dsimp only at hhost hport
  have hanswer (p : AuthorityPart) : u.answer (UriObject.partAccessor p) =
      readPart p (authorityPartText u.authorityText p) := by
    rw [hu.used.answer_part, UriObject.partText_eq]
  have hanswerPort := hanswer .port
  have hanswerHost := hanswer .hostName
  rw [hport] at hanswerPort
  rw [hhost] at hanswerHost
  refine and_congr ?_ (forall_congr' fun inner => forall_congr' fun hinner => ?_)
  · exact hanswerPort ▸ readPort_iff
  · have hread {t x : Bytes} (hx : x ≠ []) :
        readPart .hostName t = some (.text (some x)) ↔ t = x := by
      cases t <;> simp [readPart, eq_comm, hx]
    rw [← bracket_host_iff hinner]
    exact hanswerHost ▸ hread (cons_ne_nil _ _)

/-- "http://[::1]:12". -/
def loopback : UriObject .strict :=
  .ofViews .strict 0 (str "http://[::1]:12")
    { scheme := ⟨0, 4⟩, authority := ⟨7, 8⟩, path := ⟨15, 0⟩ }

/-- The port behind an address in brackets is not read; the program ends. -/
theorem loopback_port_terminates :
    loopback.Made ∧ loopback.answer .port = none ∧ lastPort (hostPart loopback.authorityText) = some 12 ∧
      loopback.answer .hostName = some (.text (some (str "["))) := by
  have hmade : loopback.Made := UriObject.made_of_parse (by decide +kernel) 0
  exact ⟨hmade, rfl, by decide +kernel, rfl⟩

/-- "http://h:80". -/
def withPort : UriObject .strict :=
  .ofViews .strict 0 (str "http://h:80")
    { scheme := ⟨0, 4⟩, authority := ⟨7, 4⟩, path := ⟨11, 0⟩ }

theorem port_exact_iff_withPort : withPort.Made ∧ withPort.answer .port = some (.number (some 80)) := by
  have hmade : withPort.Made := UriObject.made_of_parse (by decide +kernel) 0
  have hhost : hostPart withPort.authorityText = str "h:80" := by decide +kernel
  have hlast : lastPort (str "h:80") = some 80 := by decide +kernel
  have hexact : withPort.PortExact := by
    refine (port_exact_iff hmade).mpr ⟨?_, ?_⟩
    · rw [hhost]
      exact .inr ⟨str "h", str "80", rfl, by decide, .inr (.inl (by decide +kernel))⟩
    · rintro _ ⟨_, hsplit, -⟩
      rw [hhost] at hsplit
      exact absurd (List.cons.inj hsplit).1 (by decide)
  have hport := hexact.1
  rw [hhost, hlast] at hport
  exact ⟨hmade, hport⟩

end OpenCmw
