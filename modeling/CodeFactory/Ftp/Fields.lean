import CodeFactory.Ftp.Control
import CodeFactory.Http.Parsing
import CodeFactory.Lib.Overwrite
import CodeFactory.Oal.IpAddress

/-!
# The fields of replies and of URLs

What `ftp_handle_cmd_resp` takes from the replies to PASV, RETR and SIZE, with the numbers that it makes of them, and `ftp_parse_url`.
What is in an array on the stack before anything is written to it is given, and so is what can be read behind the string of a URL.
-/

namespace CodeFactory.Ftp

open Conf (atoi cString digitsNum intMax isspace strchr)
open Http (atoiInt fill mentions)
open Oal (IsOctet)

/-! ## Replies -/

/-- What is behind white space and a sign. -/
def behindSign (a : Text) : Text :=
  match a.dropWhile isspace with
  | '-' :: digits => digits
  | '+' :: digits => digits
  | digits => digits

/-- Some character of an array ends the number that `atoi` reads. -/
def Ends (a : Text) : Prop := (behindSign a).dropWhile Char.isDigit ≠ []

instance (a : Text) : Decidable (Ends a) := inferInstanceAs (Decidable (_ ≠ _))

/-- `atoi` on an array; without an end of the number it reads on behind the array. -/
def atoiArray (a : Text) : Outcome Int := if Ends a then atoiInt a else .undefined

/-- The loop over `gPasvStrPort`, when `before` has been read. The arrays are taken to keep from round to round what is in them. -/
def portLoop : (before text strHigh strLow : Text) → (gPasvPort : Nat) → Outcome Nat
  | _, [], _, _, gPasvPort => .done gPasvPort
  | before, q :: text, strHigh, strLow, _ =>
    if q = ',' then
      (fits 4 before).bind fun _ => (fits 4 text).bind fun _ =>
      (atoiArray (fill strHigh before)).bind fun high => (atoiArray (fill strLow text)).bind fun low =>
      portLoop (before ++ [q]) text (fill strHigh before) (fill strLow text) ((high * 256 + low) % 65536).toNat
    else
      (atoiArray strHigh).bind fun high => (atoiArray strLow).bind fun low =>
      portLoop (before ++ [q]) text strHigh strLow ((high * 256 + low) % 65536).toNat

/-- What is in the arrays of a call of `ftp_handle_cmd_resp`, and in `gPasvPort`, before. -/
structure Arrays where
  strHigh : Text
  strLow : Text
  gPasvPort : Nat
  length_strHigh : strHigh.length = 4
  length_strLow : strLow.length = 4

/-- `gPasvIPAddr` and `gPasvPort` from the reply to PASV. -/
def pasvAddress (arrays : Arrays) (respline : Text) : Outcome (Text × Nat) :=
  match strchr '(' respline, strchr ')' respline with
  | some (front, _), some (upto, _) =>
    if front.length < upto.length then
      match fourthComma (upto.drop (front.length + 1)) with
      | some (addr, port) =>
        (fits 17 addr).bind fun _ => (fits 8 port).bind fun _ =>
        (portLoop [] port arrays.strHigh arrays.strLow arrays.gPasvPort).map fun gPasvPort =>
          (addr.map fun ch => if ch = ',' then '.' else ch, gPasvPort)
      | none => .undefined
    else .undefined
  | _, _ => .undefined

/-- What is taken from a reply. -/
inductive Fetched where
  | address (gPasvIPAddr : Text) (gPasvPort : Nat)
  | filesize (n : Int)
  | nothing
  deriving DecidableEq, Repr

/-- What is taken from the line that was expected. -/
def fetched (cmd : Cmd) (arrays : Arrays) (respline : Text) : Outcome Fetched :=
  match cmd with
  | .pasv => (pasvAddress arrays (cString respline)).map fun r => .address r.1 r.2
  | .retr => (fetchRetr (cString respline)).map .filesize
  | .size => (fetchSize (cString respline)).map .filesize
  | _ => .done .nothing

/-- A reply to PASV with an address and a port. -/
structure PasvReply where
  front : Text
  (h1 h2 h3 h4 p1 p2 : Text)
  behind : Text
  front_clean : '(' ∉ front ∧ ')' ∉ front ∧ '\x00' ∉ front
  octets : ∀ t ∈ [h1, h2, h3, h4, p1, p2], IsOctet t ∧ t.length ≤ 3

def PasvReply.line (r : PasvReply) : Text :=
  r.front ++ '(' :: (r.h1 ++ ',' :: (r.h2 ++ ',' :: (r.h3 ++ ',' :: (r.h4 ++ ',' :: (r.p1 ++ ',' :: (r.p2 ++ ')' :: r.behind))))))

/-- What has to be taken from it. -/
def PasvReply.fetched (r : PasvReply) : Fetched :=
  .address (r.h1 ++ '.' :: (r.h2 ++ '.' :: (r.h3 ++ '.' :: r.h4))) (digitsNum r.p1 * 256 + digitsNum r.p2)

/-- Nothing is read outside of the line and the arrays, or written there, and from a reply with an address and a port these are taken. -/
def FetchesRight (cmd : Cmd) (arrays : Arrays) (respline : Text) : Prop :=
  fetched cmd arrays respline ≠ .undefined ∧
    ∀ r : PasvReply, cmd = .pasv → respline = r.line → fetched cmd arrays respline = .done r.fetched

/-- A number that is an `int`. -/
def IsInt (text : Text) : Prop := -intMax - 1 ≤ atoi text ∧ atoi text ≤ intMax

/-- The text behind the fourth comma can be taken for a port: what is in front of each comma and behind it fits its array, and what was in
the arrays is read only if it ends numbers. -/
def PortFits (arrays : Arrays) (port : Text) : Prop :=
  (∀ a b, port = a ++ ',' :: b → a.length < 4 ∧ b.length < 4) ∧
    ∀ ch ∈ port.head?, ch ≠ ',' → Ends arrays.strHigh ∧ Ends arrays.strLow

/-- The fields of a reply are there, and fit the arrays. -/
def Fetchable (cmd : Cmd) (arrays : Arrays) (respline : Text) : Prop :=
  match cmd with
  | .pasv => ∃ front addr port behind, cString respline = front ++ '(' :: (addr ++ ',' :: (port ++ ')' :: behind)) ∧
      '(' ∉ front ∧ ')' ∉ front ∧ ')' ∉ addr ∧ ')' ∉ port ∧ addr.count ',' = 3 ∧ addr.length < 17 ∧ port.length < 8 ∧
      PortFits arrays port
  | .retr => '(' ∉ cString respline ∨ ∃ front digits behind, cString respline = front ++ '(' :: (digits ++ ' ' :: behind) ∧
      '(' ∉ front ∧ ' ' ∉ digits ∧ digits.length < 16 ∧ IsInt digits
  | .size => ∃ front text, cString respline = front ++ ' ' :: text ∧ ' ' ∉ front ∧ text.length < 16 ∧ IsInt text
  | _ => True

/-! ## URLs -/

def ftpUrlParamLen : Nat := 256

def filenameMax : Nat := 4096

def urlPrefix : Text := ['f', 't', 'p', ':', '/', '/']

def inetNtoa (a : UInt8 × UInt8 × UInt8 × UInt8) : Text :=
  Nat.toDigits 10 a.1.toNat ++ '.' :: (Nat.toDigits 10 a.2.1.toNat ++ '.' :: (Nat.toDigits 10 a.2.2.1.toNat ++ '.' ::
    Nat.toDigits 10 a.2.2.2.toNat))

/-- The names that `inet_aton` takes for addresses, and the addresses that `gethostbyname` gives. -/
structure Resolver where
  inetAton : Text → Bool
  gethostbyname : Text → Option (UInt8 × UInt8 × UInt8 × UInt8)

/-- What can be read behind the string of the URL, and what is in `serverName` and in `gFilename` before. -/
structure Surroundings where
  behind : Text
  serverName : Text
  gFilename : Text
  length_serverName : serverName.length = ftpUrlParamLen
  length_gFilename : gFilename.length = filenameMax

/-- What `ftp_parse_url` makes of a URL: `gFilename`, the string in `serverName`, and `gFtpServerStrIP` and `gFtpServerPort` where the name
is resolved. -/
structure Parsed where
  gFilename : Text
  serverName : Text
  server : Option (Text × Nat)
  deriving DecidableEq, Repr

/-- `gFilename`, when `p` is what is behind the prefix, and `serverURILen` of it come before the path. -/
def copyFilename (around : Surroundings) (url path : Text) (serverURILen : Nat) : Outcome Text :=
  let source := '/' :: path ++ '\x00' :: around.behind
  if url.length - serverURILen ≤ source.length then writeAt around.gFilename 0 (source.take (url.length - serverURILen)) else .undefined

/-- `serverName` and `serverPort`. -/
def splitServer (around : Surroundings) (serverURI : Text) : Outcome (Text × Nat) :=
  match strchr ':' serverURI with
  | some (name, port) =>
    (writeAt around.serverName 0 name).bind fun serverName =>
    (fits 16 (port ++ ['\x00'])).bind fun _ => (atoiInt port).map fun serverPort => (serverName, (serverPort % 65536).toNat)
  | none => (writeAt around.serverName 0 (serverURI ++ ['\x00'])).map fun serverName => (serverName, 21)

/-- `gFtpServerStrIP`, or none where the name is not resolved. -/
def resolve (resolver : Resolver) (serverName : Text) : Outcome (Option Text) :=
  if resolver.inetAton serverName then (fits 16 serverName).map fun _ => some serverName
  else
    match resolver.gethostbyname serverName with
    | some addr => (fits 16 (inetNtoa addr)).map fun _ => some (inetNtoa addr)
    | none => .done none

/-- `ftp_parse_url`; no result where the URL has no path. -/
def ftpParseUrl (resolver : Resolver) (around : Surroundings) (url : Text) : Outcome (Option Parsed) :=
  match strchr '/' (if mentions url urlPrefix then url.drop urlPrefix.length else url) with
  | none => .done none
  | some (serverURI, path) =>
    (fits ftpUrlParamLen serverURI).bind fun _ =>
    (copyFilename around url path serverURI.length).bind fun gFilename =>
    (splitServer around serverURI).bind fun (serverName, serverPort) =>
    if '\x00' ∈ serverName then
      (resolve resolver (cString serverName)).map fun ip => some ⟨gFilename, cString serverName, ip.map fun ip => (ip, serverPort)⟩
    else .undefined

/-- A URL of a file, with a port or without, whose parts fit the arrays that they are for. -/
structure Url where
  host : Text
  port : Option Text
  path : Text
  host_clean : ∀ ch ∈ host, ch ≠ '/' ∧ ch ≠ ':' ∧ ch ≠ '\x00'
  port_digits : ∀ t ∈ port, t ≠ [] ∧ (∀ ch ∈ t, ch.isDigit = true) ∧ digitsNum t < 65536
  path_clean : '\x00' ∉ path
  server_length : host.length + (port.elim 0 fun t => t.length + 1) < ftpUrlParamLen
  port_length : ∀ t ∈ port, t.length < 16
  path_length : path.length + 1 < filenameMax

namespace Url

/-- The host, and the port. -/
def server (u : Url) : Text := u.host ++ u.port.elim [] fun t => ':' :: t

def text (u : Url) : Text := urlPrefix ++ (u.server ++ '/' :: u.path)

/-- The port that is given, or the default. -/
def portNumber (u : Url) : Nat := u.port.elim 21 digitsNum

end Url

def Resolver.address (resolver : Resolver) (host : Text) : Option Text :=
  if resolver.inetAton host then some host else (resolver.gethostbyname host).map inetNtoa

/-- The path is the string in `gFilename`, the host is what is looked up, and the server has its address and the port of the URL. -/
structure Parsed.Is (resolver : Resolver) (u : Url) (p : Parsed) : Prop where
  terminated : '\x00' ∈ p.gFilename
  path : cString p.gFilename = '/' :: u.path
  host : p.serverName = u.host
  server : p.server = (resolver.address u.host).map fun ip => (ip, u.portNumber)

/-- A URL is parsed into its host, its port and its path. -/
def ParsesRight (resolver : Resolver) (around : Surroundings) (u : Url) : Prop :=
  ∃ p, ftpParseUrl resolver around u.text = .done (some p) ∧ p.Is resolver u

/-- Five characters can be read behind the URL; the path leaves them room in `gFilename`; a port is short enough for two nulls behind it,
and there is a null in `serverName` where its name ends; and a host that is taken for an address is as short as one. -/
def Parsable (resolver : Resolver) (around : Surroundings) (u : Url) : Prop :=
  5 ≤ around.behind.length ∧ u.path.length + 7 ≤ filenameMax ∧
    (∀ t ∈ u.port, t.length < 15 ∧ around.serverName[u.host.length]? = some '\x00') ∧
    (resolver.inetAton u.host = true → u.host.length < 16)

/-! ## Numbers in arrays -/

variable {a : Text} {n : Nat}

theorem mem_dropWhile_of_not {p : Char → Bool} {ch : Char} (h : ch ∈ a) (hp : p ch = false) : ch ∈ a.dropWhile p := by
  rw [← List.takeWhile_append_dropWhile (p := p) (l := a), List.mem_append] at h
  refine h.resolve_left fun hmem => ?_
  rw [List.mem_takeWhile_imp hmem] at hp
  exact absurd hp (by decide)

/-- A null ends a number. -/
theorem ends_of_mem (h : '\x00' ∈ a) : Ends a := by
  have hspace := mem_dropWhile_of_not (p := isspace) h (by decide)
  have hsign : '\x00' ∈ behindSign a := by
    unfold behindSign
    split
    next hdrop => simpa [hdrop] using hspace
    next hdrop => simpa [hdrop] using hspace
    next => exact hspace
  intro hnil
  have hdigit := mem_dropWhile_of_not (p := Char.isDigit) hsign (by decide)
  rw [hnil] at hdigit
  cases hdigit

theorem foldl_digits_lt (hdigits : ∀ ch ∈ a, ch.isDigit = true) (n : Nat) :
    a.foldl (fun n c => 10 * n + (c.toNat - 48)) n < (n + 1) * 10 ^ a.length := by
  induction a generalizing n with
  | nil => simp
  | cons ch a ih =>
    rw [List.forall_mem_cons] at hdigits
    have hch : ch.toNat - 48 ≤ 9 := by
      have hle := hdigits.1
      rw [Char.isDigit, Bool.and_eq_true, decide_eq_true_eq, decide_eq_true_eq] at hle
      have htop : ch.toNat ≤ 57 := hle.2
      omega
    refine (ih hdigits.2 _).trans_le ?_
    rw [List.length_cons, Nat.pow_succ', ← Nat.mul_assoc]
    refine Nat.mul_le_mul_right _ ?_
    dsimp only
    omega

theorem digitsNum_lt (h : a.length ≤ 4) : digitsNum a < 10000 := by
  have hlt := foldl_digits_lt (a := a.takeWhile Char.isDigit) (fun ch hch => List.mem_takeWhile_imp hch) 0
  have hlen : (a.takeWhile Char.isDigit).length ≤ 4 := (List.takeWhile_prefix _).length_le.trans h
  have hpow : 10 ^ (a.takeWhile Char.isDigit).length ≤ 10 ^ 4 := Nat.pow_le_pow_right (by decide) hlen
  unfold digitsNum
  omega

/-- A number in an array of four characters is an `int`. -/
theorem atoiArray_of_ends (h : Ends a) (hlen : a.length = 4) : atoiArray a = .done (atoi a) := by
  have hdrop : (a.dropWhile isspace).length ≤ 4 := (List.dropWhile_suffix _).length_le.trans (Nat.le_of_eq hlen)
  have hint : -intMax - 1 ≤ atoi a ∧ atoi a ≤ intMax := by
    rw [intMax]
    unfold atoi
    split
    next digits heq =>
      rw [heq, List.length_cons] at hdrop
      have hlt := digitsNum_lt (a := digits) (by omega)
      omega
    next digits heq =>
      rw [heq, List.length_cons] at hdrop
      have hlt := digitsNum_lt (a := digits) (by omega)
      omega
    next =>
      have hlt := digitsNum_lt hdrop
      omega
  rw [atoiArray, if_pos h, atoiInt, if_pos hint]

theorem length_fill {text : Text} (hlen : a.length = 4) (h : text.length < 4) : (fill a text).length = 4 := by
  simp [fill]
  omega

theorem ends_fill (a text : Text) : Ends (fill a text) := ends_of_mem (by simp [fill])

/-! ## The port -/

variable {before text strHigh strLow : Text} {gPasvPort : Nat}

theorem fits_bind_ne_undefined_iff {α : Type} {f : Unit → Outcome α} :
    (fits n text).bind f ≠ .undefined ↔ text.length < n ∧ f () ≠ .undefined := by
  unfold fits
  split <;> simp_all

/-- A round without a comma. -/
theorem portLoop_cons {q : Char} (hq : q ≠ ',') (hH : Ends strHigh) (hL : Ends strLow) (hlenH : strHigh.length = 4)
    (hlenL : strLow.length = 4) :
    portLoop before (q :: text) strHigh strLow gPasvPort =
      portLoop (before ++ [q]) text strHigh strLow ((atoi strHigh * 256 + atoi strLow) % 65536).toNat := by
  rw [portLoop, if_neg hq, atoiArray_of_ends hH hlenH, atoiArray_of_ends hL hlenL]
  rfl

theorem portLoop_comma (hbefore : before.length < 4) (htext : text.length < 4) (hlenH : strHigh.length = 4) (hlenL : strLow.length = 4) :
    portLoop before (',' :: text) strHigh strLow gPasvPort =
      portLoop (before ++ [',']) text (fill strHigh before) (fill strLow text)
        ((atoi (fill strHigh before) * 256 + atoi (fill strLow text)) % 65536).toNat := by
  rw [portLoop, if_pos rfl, fits, if_pos hbefore, fits, if_pos htext, Outcome.bind_done, Outcome.bind_done,
    atoiArray_of_ends (ends_fill _ _) (length_fill hlenH hbefore), atoiArray_of_ends (ends_fill _ _) (length_fill hlenL htext)]
  rfl

theorem portLoop_comma_undefined (h : ¬(before.length < 4 ∧ text.length < 4)) :
    portLoop before (',' :: text) strHigh strLow gPasvPort = .undefined := by
  rw [portLoop, if_pos rfl]
  by_cases hbefore : before.length < 4
  · rw [fits, if_pos hbefore, Outcome.bind_done, fits, if_neg fun htext => h ⟨hbefore, htext⟩]
    rfl
  · rw [fits, if_neg hbefore]
    rfl

/-- What is in front of each comma, and behind it, fits an array. -/
def CommasFit (before text : Text) : Prop := ∀ a b, text = a ++ ',' :: b → (before ++ a).length < 4 ∧ b.length < 4

theorem commasFit_cons {q : Char} :
    CommasFit before (q :: text) ↔ (q = ',' → before.length < 4 ∧ text.length < 4) ∧ CommasFit (before ++ [q]) text := by
  constructor
  · intro h
    refine ⟨?_, fun a b hab => ?_⟩
    · rintro rfl
      simpa using h [] text rfl
    · simpa [Nat.add_assoc, Nat.add_comm, Nat.add_left_comm] using h (q :: a) b (by rw [hab]; rfl)
  · rintro ⟨hcomma, h⟩ a b hab
    rcases List.cons_eq_append_iff.1 hab with ⟨rfl, heq⟩ | ⟨a', rfl, heq⟩
    · cases heq
      simpa using hcomma rfl
    · simpa [Nat.add_assoc, Nat.add_comm, Nat.add_left_comm] using h a' b heq

/-- Once both arrays hold numbers, nothing else can go wrong. -/
theorem portLoop_ne_undefined_iff (hH : Ends strHigh) (hL : Ends strLow) (hlenH : strHigh.length = 4) (hlenL : strLow.length = 4) :
    portLoop before text strHigh strLow gPasvPort ≠ .undefined ↔ CommasFit before text := by
  induction text generalizing before strHigh strLow gPasvPort with
  | nil => simp [portLoop, CommasFit]
  | cons q text ih =>
    rw [commasFit_cons]
    by_cases hq : q = ','
    · subst hq
      by_cases hfits : before.length < 4 ∧ text.length < 4
      · rw [portLoop_comma hfits.1 hfits.2 hlenH hlenL,
          ih (ends_fill _ _) (ends_fill _ _) (length_fill hlenH hfits.1) (length_fill hlenL hfits.2)]
        exact ⟨fun h => ⟨fun _ => hfits, h⟩, fun h => h.2⟩
      · rw [portLoop_comma_undefined hfits]
        exact ⟨fun h => absurd rfl h, fun h => absurd (h.1 rfl) hfits⟩
    · rw [portLoop_cons hq hH hL hlenH hlenL, ih hH hL hlenH hlenL]
      exact ⟨fun h => ⟨fun heq => absurd heq hq, h⟩, fun h => h.2⟩

variable {arrays : Arrays} {port : Text}

theorem portFits_iff : portLoop [] port arrays.strHigh arrays.strLow arrays.gPasvPort ≠ .undefined ↔ PortFits arrays port := by
  have hlenH := arrays.length_strHigh
  have hlenL := arrays.length_strLow
  change _ ↔ CommasFit [] port ∧ _
  cases port with
  | nil => simp [portLoop, CommasFit]
  | cons q port =>
    have hhead : (∀ ch ∈ (q :: port).head?, ch ≠ ',' → Ends arrays.strHigh ∧ Ends arrays.strLow) ↔
        (q ≠ ',' → Ends arrays.strHigh ∧ Ends arrays.strLow) := by simp
    rw [hhead]
    by_cases hq : q = ','
    · subst hq
      rw [commasFit_cons]
      by_cases hport : port.length < 4
      · rw [portLoop_comma (by decide) hport hlenH hlenL, portLoop_ne_undefined_iff (ends_fill _ _) (ends_fill _ _)
          (length_fill hlenH (by decide)) (length_fill hlenL hport)]
        simp [hport]
      · rw [portLoop_comma_undefined fun h => hport h.2]
        simp [hport]
    · by_cases hends : Ends arrays.strHigh ∧ Ends arrays.strLow
      · rw [portLoop_ne_undefined_iff hends.1 hends.2 hlenH hlenL]
        exact ⟨fun h => ⟨h, fun _ => hends⟩, fun h => h.1⟩
      · refine iff_of_false (fun h => h ?_) fun h => hends (h.2 hq)
        rw [portLoop, if_neg hq]
        by_cases hH : Ends arrays.strHigh
        · rw [atoiArray_of_ends hH hlenH, Outcome.bind_done, atoiArray, if_neg fun hL => hends ⟨hH, hL⟩]
          rfl
        · rw [atoiArray, if_neg hH]
          rfl

theorem portLoop_of_notMem (htext : ',' ∉ text) (hH : Ends strHigh) (hL : Ends strLow) (hlenH : strHigh.length = 4)
    (hlenL : strLow.length = 4) :
    portLoop before text strHigh strLow ((atoi strHigh * 256 + atoi strLow) % 65536).toNat =
      .done ((atoi strHigh * 256 + atoi strLow) % 65536).toNat := by
  induction text generalizing before with
  | nil => rfl
  | cons q text ih =>
    obtain ⟨hq, htext⟩ := List.ne_and_not_mem_of_not_mem_cons htext
    rw [portLoop_cons (Ne.symm hq) hH hL hlenH hlenL, ih htext]

/-- The text in front of the first comma is passed. -/
theorem portLoop_append (htext : ',' ∉ a) (hH : Ends strHigh) (hL : Ends strLow) (hlenH : strHigh.length = 4) (hlenL : strLow.length = 4) :
    ∃ gPasvPort', portLoop before (a ++ text) strHigh strLow gPasvPort = portLoop (before ++ a) text strHigh strLow gPasvPort' := by
  induction a generalizing before gPasvPort with
  | nil => exact ⟨gPasvPort, by rw [List.nil_append, List.append_nil]⟩
  | cons q a ih =>
    obtain ⟨hq, htext⟩ := List.ne_and_not_mem_of_not_mem_cons htext
    obtain ⟨gPasvPort', hrun⟩ := @ih (before ++ [q]) ((atoi strHigh * 256 + atoi strLow) % 65536).toNat htext
    refine ⟨gPasvPort', ?_⟩
    rw [List.cons_append, portLoop_cons (Ne.symm hq) hH hL hlenH hlenL, hrun, List.append_assoc]
    rfl

theorem notMem_of_isOctet (h : IsOctet a) {ch : Char} (hch : ch.isDigit = false) : ch ∉ a := by
  intro hmem
  rw [h.2.1 ch hmem] at hch
  exact absurd hch (by decide)

theorem atoi_fill (h : IsOctet text) (a : Text) : atoi (fill a text) = digitsNum text :=
  Http.atoi_digits (fun _ h => absurd h List.not_mem_nil) h.2.1 h.1 (by simp)

/-- The port of two octets. -/
theorem portLoop_octets {p1 p2 : Text} (h1 : IsOctet p1 ∧ p1.length ≤ 3) (h2 : IsOctet p2 ∧ p2.length ≤ 3) (hH : Ends strHigh)
    (hL : Ends strLow) (hlenH : strHigh.length = 4) (hlenL : strLow.length = 4) :
    portLoop [] (p1 ++ ',' :: p2) strHigh strLow gPasvPort = .done (digitsNum p1 * 256 + digitsNum p2) := by
  obtain ⟨gPasvPort', hrun⟩ := @portLoop_append p1 [] (',' :: p2) strHigh strLow gPasvPort (notMem_of_isOctet h1.1 (by decide)) hH hL hlenH hlenL
  have hcount : ((digitsNum p1 * 256 + digitsNum p2 : Int) % 65536).toNat = digitsNum p1 * 256 + digitsNum p2 := by
    have hle1 := h1.1.2.2
    have hle2 := h2.1.2.2
    omega
  rw [hrun, List.nil_append, portLoop_comma (by omega) (by omega) hlenH hlenL,
    portLoop_of_notMem (notMem_of_isOctet h2.1 (by decide)) (ends_fill _ _) (ends_fill _ _) (length_fill hlenH (by omega))
      (length_fill hlenL (by omega)), atoi_fill h1.1, atoi_fill h2.1, hcount]

/-! ## The fields of a line -/

variable {addr rest : Text} {ch : Char}

/-- The first of several commas. -/
theorem exists_of_count {k : Nat} (h : text.count ',' = k + 1) : ∃ a b, text = a ++ ',' :: b ∧ ',' ∉ a ∧ b.count ',' = k := by
  have hmem : ',' ∈ text := List.count_pos_iff.1 (by omega)
  obtain ⟨a, b, rfl, ha⟩ := List.eq_append_cons_of_mem hmem
  refine ⟨a, b, rfl, ha, ?_⟩
  rw [List.count_append, List.count_eq_zero.2 ha, List.count_cons_self] at h
  omega

/-- Four commas are found where there are three in the text up to a fourth one. -/
theorem fourthComma_eq_some_iff : fourthComma text = some (addr, port) ↔ text = addr ++ ',' :: port ∧ addr.count ',' = 3 := by
  unfold fourthComma
  constructor
  · intro h
    simp only [Option.bind_eq_some_iff, Option.map_eq_some_iff, Prod.exists, Conf.strchr_eq_some_iff, Prod.mk.injEq] at h
    obtain ⟨a, ra, ⟨rfl, ha⟩, b, rb, ⟨rfl, hb⟩, c, rc, ⟨rfl, hc⟩, d, rd, ⟨rfl, hd⟩, rfl, rfl⟩ := h
    refine ⟨by simp, ?_⟩
    simp [List.count_append, List.count_eq_zero.2 ha, List.count_eq_zero.2 hb, List.count_eq_zero.2 hc, List.count_eq_zero.2 hd]
  · rintro ⟨rfl, hcount⟩
    obtain ⟨a, ra, rfl, ha, hcount⟩ := exists_of_count hcount
    obtain ⟨b, rb, rfl, hb, hcount⟩ := exists_of_count hcount
    obtain ⟨c, d, rfl, hc, hcount⟩ := exists_of_count hcount
    have hd : ',' ∉ d := List.count_eq_zero.1 hcount
    simp [Conf.strchr_append ha, Conf.strchr_append hb, Conf.strchr_append hc, Conf.strchr_append hd]

/-- The parentheses and the commas of a reply to PASV. -/
def PasvShape (line front addr port behind : Text) : Prop :=
  line = front ++ '(' :: (addr ++ ',' :: (port ++ ')' :: behind)) ∧
    '(' ∉ front ∧ ')' ∉ front ∧ ')' ∉ addr ∧ ')' ∉ port ∧ addr.count ',' = 3

/-- In a line of this shape the parentheses and the fourth comma are found. -/
theorem PasvShape.found {line front behind : Text} (h : PasvShape line front addr port behind) :
    (∃ rest, strchr '(' line = some (front, rest)) ∧ strchr ')' line = some (front ++ '(' :: (addr ++ ',' :: port), behind) ∧
      fourthComma ((front ++ '(' :: (addr ++ ',' :: port)).drop (front.length + 1)) = some (addr, port) := by
  obtain ⟨rfl, hfront, hfront', haddr, hport, hcount⟩ := h
  refine ⟨⟨_, Conf.strchr_append hfront _⟩, ?_, ?_⟩
  · rw [Conf.strchr_eq_some_iff]
    refine ⟨by simp, ?_⟩
    simp [hfront', haddr, hport]
  · rw [List.drop_length_add_append]
    exact fourthComma_eq_some_iff.2 ⟨rfl, hcount⟩

theorem pasvAddress_of_shape {line front behind : Text} (h : PasvShape line front addr port behind) :
    pasvAddress arrays line =
      (fits 17 addr).bind fun _ => (fits 8 port).bind fun _ =>
        (portLoop [] port arrays.strHigh arrays.strLow arrays.gPasvPort).map fun gPasvPort =>
          (addr.map fun ch => if ch = ',' then '.' else ch, gPasvPort) := by
  obtain ⟨⟨rest, hopen⟩, hclose, hcommas⟩ := h.found
  rw [pasvAddress, hopen, hclose]
  dsimp only
  rw [if_pos (by simp), hcommas]

/-- In no other line. -/
theorem exists_shape (h : pasvAddress arrays text ≠ .undefined) : ∃ front addr port behind, PasvShape text front addr port behind := by
  unfold pasvAddress at h
  split at h
  next front behind upto behind' hopen hclose =>
    obtain ⟨rfl, hfront⟩ := Conf.strchr_eq_some_iff.1 hopen
    obtain ⟨heq, hupto⟩ := Conf.strchr_eq_some_iff.1 hclose
    split at h
    next hlt =>
      split at h
      next addr port hcommas =>
        obtain ⟨hdrop, hcount⟩ := fourthComma_eq_some_iff.1 hcommas
        have hsplit : upto = front ++ '(' :: (addr ++ ',' :: port) := by
          obtain ⟨mid, rfl, hmid⟩ | ⟨mid, hmid, -⟩ := List.append_eq_append_iff.1 heq
          · cases mid with
            | nil => simp at hlt
            | cons ch mid =>
              obtain ⟨rfl, -⟩ := List.cons_eq_cons.1 hmid
              rw [List.drop_length_add_append] at hdrop
              rw [← hdrop]
              rfl
          · rw [hmid, List.length_append] at hlt
            omega
        subst hsplit
        simp only [List.mem_append, List.mem_cons, not_or] at hupto
        exact ⟨front, addr, port, behind', by rw [heq]; simp, hfront, hupto.1, hupto.2.2.1, hupto.2.2.2.2, hcount⟩
      next => exact absurd rfl h
    next => exact absurd rfl h
  next => exact absurd rfl h

theorem pasvAddress_ne_undefined_iff : pasvAddress arrays text ≠ .undefined ↔
    ∃ front addr port behind, PasvShape text front addr port behind ∧ addr.length < 17 ∧ port.length < 8 ∧ PortFits arrays port := by
  constructor
  · intro h
    obtain ⟨front, addr, port, behind, hshape⟩ := exists_shape h
    rw [pasvAddress_of_shape hshape, fits_bind_ne_undefined_iff, fits_bind_ne_undefined_iff, Ne, Outcome.map_eq_undefined_iff] at h
    obtain ⟨haddr, hport, h⟩ := h
    exact ⟨front, addr, port, behind, hshape, haddr, hport, portFits_iff.1 h⟩
  · rintro ⟨front, addr, port, behind, hshape, haddr, hport, hfits⟩
    rw [pasvAddress_of_shape hshape, fits_bind_ne_undefined_iff, fits_bind_ne_undefined_iff, Ne, Outcome.map_eq_undefined_iff]
    exact ⟨haddr, hport, portFits_iff.2 hfits⟩

theorem atoiInt_ne_undefined_iff : atoiInt text ≠ .undefined ↔ IsInt text := by
  unfold atoiInt IsInt
  split <;> simp_all

theorem fetchRetr_ne_undefined_iff : fetchRetr text ≠ .undefined ↔ '(' ∉ text ∨ ∃ front digits behind,
    text = front ++ '(' :: (digits ++ ' ' :: behind) ∧ '(' ∉ front ∧ ' ' ∉ digits ∧ digits.length < 16 ∧ IsInt digits := by
  by_cases hopen : '(' ∈ text
  · obtain ⟨front, p, rfl, hfront⟩ := List.eq_append_cons_of_mem hopen
    rw [fetchRetr, Conf.strchr_append hfront]
    dsimp only
    constructor
    · intro h
      split at h
      next => exact absurd rfl h
      next digits behind hspace =>
        obtain ⟨rfl, hdigits⟩ := Conf.strchr_eq_some_iff.1 hspace
        rw [fits_bind_ne_undefined_iff, atoiInt_ne_undefined_iff] at h
        exact .inr ⟨front, digits, behind, rfl, hfront, hdigits, h⟩
    · rintro (hnot | ⟨front', digits, behind, heq, hfront', hdigits, h⟩)
      · exact absurd hopen hnot
      · have hfound := Conf.strchr_append hfront' (digits ++ ' ' :: behind)
        rw [← heq, Conf.strchr_append hfront] at hfound
        cases hfound
        rw [Conf.strchr_append hdigits]
        rwa [fits_bind_ne_undefined_iff, atoiInt_ne_undefined_iff]
  · rw [fetchRetr, Conf.strchr_of_notMem hopen]
    exact iff_of_true nofun (.inl hopen)

theorem fetchSize_ne_undefined_iff : fetchSize text ≠ .undefined ↔
    ∃ front number, text = front ++ ' ' :: number ∧ ' ' ∉ front ∧ number.length < 16 ∧ IsInt number := by
  unfold fetchSize
  constructor
  · intro h
    split at h
    next => exact absurd rfl h
    next front number hspace =>
      obtain ⟨rfl, hfront⟩ := Conf.strchr_eq_some_iff.1 hspace
      rw [fits_bind_ne_undefined_iff, atoiInt_ne_undefined_iff] at h
      exact ⟨front, number, rfl, hfront, h⟩
  · rintro ⟨front, number, rfl, hfront, h⟩
    rw [Conf.strchr_append hfront]
    rwa [fits_bind_ne_undefined_iff, atoiInt_ne_undefined_iff]

/-- Of a reply all that is read or written is there if and only if its fields are. -/
theorem fetched_ne_undefined_iff {cmd : Cmd} : fetched cmd arrays text ≠ .undefined ↔ Fetchable cmd arrays text := by
  cases cmd with
  | pasv =>
    rw [fetched, Ne, Outcome.map_eq_undefined_iff, ← Ne, pasvAddress_ne_undefined_iff, Fetchable]
    simp only [PasvShape, and_assoc]
  | retr => rw [fetched, Ne, Outcome.map_eq_undefined_iff, ← Ne, fetchRetr_ne_undefined_iff, Fetchable]
  | size => rw [fetched, Ne, Outcome.map_eq_undefined_iff, ← Ne, fetchSize_ne_undefined_iff, Fetchable]
  | _ => exact iff_of_true nofun trivial

namespace PasvReply

variable (r : PasvReply)

theorem notMem {t : Text} (h : t ∈ [r.h1, r.h2, r.h3, r.h4, r.p1, r.p2]) {ch : Char} (hch : ch.isDigit = false) : ch ∉ t :=
  notMem_of_isOctet (r.octets t h).1 hch

/-- A reply with an address and a port has the shape of one. -/
theorem shape : PasvShape (cString r.line) r.front (r.h1 ++ ',' :: (r.h2 ++ ',' :: (r.h3 ++ ',' :: r.h4))) (r.p1 ++ ',' :: r.p2)
    (cString r.behind) := by
  obtain ⟨hopen, hclose, hnul⟩ := r.front_clean
  have hclean : ∀ {ch : Char}, ch.isDigit = false → ch ∉ r.h1 ∧ ch ∉ r.h2 ∧ ch ∉ r.h3 ∧ ch ∉ r.h4 ∧ ch ∉ r.p1 ∧ ch ∉ r.p2 := fun h =>
    ⟨r.notMem (by simp) h, r.notMem (by simp) h, r.notMem (by simp) h, r.notMem (by simp) h, r.notMem (by simp) h, r.notMem (by simp) h⟩
  obtain ⟨h1, h2, h3, h4, p1, p2⟩ := @hclean '\x00' (by decide)
  obtain ⟨h1', h2', h3', h4', p1', p2'⟩ := @hclean ')' (by decide)
  obtain ⟨h1'', h2'', h3'', h4'', -, -⟩ := @hclean ',' (by decide)
  have hline : r.line = (r.front ++ '(' :: (r.h1 ++ ',' :: (r.h2 ++ ',' :: (r.h3 ++ ',' :: r.h4)) ++ ',' :: (r.p1 ++ ',' :: r.p2 ++ [')']))) ++
      r.behind := by simp [line]
  refine ⟨?_, hopen, hclose, by simp [h1', h2', h3', h4'], by simp [p1', p2'], ?_⟩
  · rw [hline, Http.cString_append (by simp [hnul, h1, h2, h3, h4, p1, p2])]
    simp
  · simp [List.count_append, List.count_eq_zero.2 h1'', List.count_eq_zero.2 h2'', List.count_eq_zero.2 h3'', List.count_eq_zero.2 h4'']

/-- The address is the numbers with dots between them. -/
theorem map_address : (r.h1 ++ ',' :: (r.h2 ++ ',' :: (r.h3 ++ ',' :: r.h4))).map (fun ch => if ch = ',' then '.' else ch) =
    r.h1 ++ '.' :: (r.h2 ++ '.' :: (r.h3 ++ '.' :: r.h4)) := by
  have hsame : ∀ {t : Text}, ',' ∉ t → t.map (fun ch => if ch = ',' then '.' else ch) = t := by
    intro t ht
    refine (List.map_congr_left fun ch hch => if_neg ?_).trans (List.map_id t)
    rintro rfl
    exact ht hch
  simp only [List.map_append, List.map_cons, if_true]
  rw [hsame (r.notMem (by simp) (by decide)), hsame (r.notMem (by simp) (by decide)), hsame (r.notMem (by simp) (by decide)),
    hsame (r.notMem (by simp) (by decide))]

/-- Where its fields can be taken at all, they are taken right. -/
theorem fetched_line (h : Ftp.fetched .pasv arrays r.line ≠ .undefined) : Ftp.fetched .pasv arrays r.line = .done r.fetched := by
  rw [Ftp.fetched, Ne, Outcome.map_eq_undefined_iff, pasvAddress_of_shape r.shape, ← Ne, fits_bind_ne_undefined_iff,
    fits_bind_ne_undefined_iff, Ne, Outcome.map_eq_undefined_iff] at h
  obtain ⟨haddr, hport, hloop⟩ := h
  obtain ⟨q, p, hp⟩ := List.exists_cons_of_ne_nil (r.octets r.p1 (by simp)).1.1
  have hq : q ≠ ',' := by
    rintro rfl
    exact r.notMem (by simp) (by decide) (hp ▸ List.mem_cons_self)
  obtain ⟨hH, hL⟩ := (portFits_iff.1 hloop).2 q (by rw [hp]; rfl) hq
  have hrun : portLoop [] (r.p1 ++ ',' :: r.p2) arrays.strHigh arrays.strLow arrays.gPasvPort = _ :=
    portLoop_octets (r.octets r.p1 (by simp)) (r.octets r.p2 (by simp)) hH hL arrays.length_strHigh arrays.length_strLow
  rw [Ftp.fetched, pasvAddress_of_shape r.shape, fits, if_pos haddr, Outcome.bind_done, fits, if_pos hport, Outcome.bind_done, hrun,
    map_address]
  rfl

end PasvReply

/-- Replies are taken right where their fields can be taken. -/
theorem fetchesRight_iff {cmd : Cmd} : FetchesRight cmd arrays text ↔ Fetchable cmd arrays text := by
  rw [FetchesRight, fetched_ne_undefined_iff]
  refine and_iff_left_of_imp fun h r => ?_
  rintro rfl rfl
  exact r.fetched_line (fetched_ne_undefined_iff.2 h)

/-! ## The parts of a URL -/

variable {resolver : Resolver} {around : Surroundings} {u : Url}

/-- An address is short. -/
theorem length_inetNtoa (a : UInt8 × UInt8 × UInt8 × UInt8) : (inetNtoa a).length < 16 := by
  have hlen : ∀ n : UInt8, (Nat.toDigits 10 n.toNat).length ≤ 3 := fun n =>
    (Nat.length_toDigits_le_iff (by decide) (by decide)).2 (n.toNat_lt.trans (by decide))
  have h1 := hlen a.1
  have h2 := hlen a.2.1
  have h3 := hlen a.2.2.1
  have h4 := hlen a.2.2.2
  simp only [inetNtoa, List.length_append, List.length_cons]
  omega

/-- A name is resolved, unless it is taken for an address and is too long for one. -/
theorem resolve_eq (resolver : Resolver) (host : Text) :
    resolve resolver host = if resolver.inetAton host = true → host.length < 16 then .done (resolver.address host) else .undefined := by
  unfold resolve Resolver.address
  by_cases hip : resolver.inetAton host = true
  · by_cases hlen : host.length < 16
    · simp [hip, fits, hlen, Outcome.map]
    · simp [hip, fits, hlen, Outcome.map]
  · cases haddr : resolver.gethostbyname host with
    | none => simp [hip]
    | some a => simp [hip, fits, length_inetNtoa, Outcome.map]

/-- The copy of the path reads five characters behind the null of the URL. -/
theorem copyFilename_eq (around : Surroundings) {url path : Text} {n : Nat} (hlen : url.length - n = path.length + 7) :
    copyFilename around url path n =
      if 5 ≤ around.behind.length ∧ path.length + 7 ≤ filenameMax then
        .done ('/' :: (path ++ '\x00' :: around.behind.take 5) ++ around.gFilename.drop (path.length + 7))
      else .undefined := by
  have htake : ('/' :: path ++ '\x00' :: around.behind).take (path.length + 7) = '/' :: (path ++ '\x00' :: around.behind.take 5) := by
    rw [List.cons_append, List.take_succ_cons, List.take_append, List.take_of_length_le (by omega)]
    simp
  have hsource : ('/' :: path ++ '\x00' :: around.behind).length = path.length + 2 + around.behind.length := by
    simp
    omega
  unfold copyFilename
  dsimp only
  rw [hlen, hsource, htake]
  by_cases hbehind : 5 ≤ around.behind.length
  · have hcopied : ('/' :: (path ++ '\x00' :: around.behind.take 5)).length = path.length + 7 := by
      simp [hbehind]
    rw [if_pos (by omega), writeAt, around.length_gFilename, hcopied, Nat.zero_add]
    by_cases hfits : path.length + 7 ≤ filenameMax
    · rw [if_pos hfits, if_pos ⟨hbehind, hfits⟩, overwrite, hcopied, List.take_zero, List.nil_append, Nat.zero_add]
    · rw [if_neg hfits, if_neg fun h => hfits h.2]
  · rw [if_neg (by omega), if_neg fun h => hbehind h.1]

namespace Url

variable (u : Url)

theorem notMem_host {ch : Char} (hch : ch = '/' ∨ ch = ':' ∨ ch = '\x00') : ch ∉ u.host := by
  intro hmem
  obtain ⟨hslash, hcolon, hnul⟩ := u.host_clean ch hmem
  rcases hch with rfl | rfl | rfl
  · exact hslash rfl
  · exact hcolon rfl
  · exact hnul rfl

theorem slash_notMem_server : '/' ∉ u.server := by
  rw [server, List.mem_append, not_or]
  refine ⟨u.notMem_host (.inl rfl), ?_⟩
  cases hport : u.port with
  | none => exact List.not_mem_nil
  | some t =>
    intro hmem
    rcases List.mem_cons.1 hmem with heq | hmem
    · cases heq
    · exact absurd ((u.port_digits t hport).2.1 _ hmem) (by decide)

theorem length_server : u.server.length < ftpUrlParamLen := by
  have hlen := u.server_length
  rw [server, List.length_append]
  cases hport : u.port with
  | none => simpa [hport] using hlen
  | some t => simpa [hport] using hlen

theorem mentions_text : mentions u.text urlPrefix = true := by
  rw [mentions, text, dropInfix?_append_left]
  rfl

theorem strchr_slash : strchr '/' (u.text.drop urlPrefix.length) = some (u.server, u.path) := by
  rw [text, List.drop_left, Conf.strchr_append u.slash_notMem_server]

/-- A host without a port is copied with the null behind it. -/
theorem splitServer_of_none (around : Surroundings) (h : u.port = none) :
    splitServer around u.server = .done (u.host ++ '\x00' :: around.serverName.drop (u.host.length + 1), u.portNumber) := by
  have hserver : u.server = u.host := by
    rw [server, h]
    exact List.append_nil _
  have hlen := u.length_server
  rw [hserver] at hlen
  rw [splitServer, hserver, Conf.strchr_of_notMem (u.notMem_host (.inr (.inl rfl)))]
  dsimp only
  rw [writeAt_of_le (by rw [around.length_serverName, List.length_append, List.length_singleton]; omega), portNumber, h]
  simp [overwrite, Outcome.map]

/-- A host with a port is copied without one. -/
theorem splitServer_of_some (around : Surroundings) {t : Text} (h : u.port = some t) :
    splitServer around u.server =
      if t.length < 15 then .done (u.host ++ around.serverName.drop u.host.length, u.portNumber) else .undefined := by
  have hserver : u.server = u.host ++ ':' :: t := by
    rw [server, h]
    rfl
  have hlen := u.length_server
  rw [hserver, List.length_append] at hlen
  obtain ⟨hne, hdigits, hlt⟩ := u.port_digits t h
  have hatoi : atoi t = digitsNum t := by
    have hread : atoi ([] ++ (t ++ [])) = digitsNum t := Http.atoi_digits (fun _ h => absurd h List.not_mem_nil) hdigits hne (by simp)
    rwa [List.nil_append, List.append_nil] at hread
  have hint : atoiInt t = .done (digitsNum t) := by
    rw [atoiInt, hatoi, if_pos]
    rw [intMax]
    omega
  have hport : u.portNumber = digitsNum t := by
    rw [portNumber, h]
    rfl
  rw [splitServer, hserver, Conf.strchr_append (u.notMem_host (.inr (.inl rfl)))]
  dsimp only
  rw [writeAt_of_le (by rw [around.length_serverName]; omega), Outcome.bind_done, fits, List.length_append, List.length_singleton, hint]
  by_cases ht : t.length < 15
  · have hmod : ((digitsNum t : Int) % 65536).toNat = digitsNum t := by omega
    rw [if_pos (by omega), if_pos ht, hport]
    simp [overwrite, Outcome.map, hmod]
  · rw [if_neg (by omega), if_neg ht]
    rfl

theorem length_text : u.text.length - u.server.length = u.path.length + 7 := by
  simp only [text, urlPrefix, List.length_append, List.length_cons, List.length_nil]
  omega

end Url

/-- What is looked up, once `serverName` and the port are there. -/
def lookUp (resolver : Resolver) (gFilename : Text) (serverName : Text) (serverPort : Nat) : Outcome (Option Parsed) :=
  if '\x00' ∈ serverName then
    (resolve resolver (cString serverName)).map fun ip => some ⟨gFilename, cString serverName, ip.map fun ip => (ip, serverPort)⟩
  else .undefined

/-- The parts are copied one after the other. -/
theorem ftpParseUrl_text (resolver : Resolver) (around : Surroundings) (u : Url) :
    ftpParseUrl resolver around u.text =
      if 5 ≤ around.behind.length ∧ u.path.length + 7 ≤ filenameMax then
        (splitServer around u.server).bind fun server =>
          lookUp resolver ('/' :: (u.path ++ '\x00' :: around.behind.take 5) ++ around.gFilename.drop (u.path.length + 7)) server.1 server.2
      else .undefined := by
  rw [ftpParseUrl, if_pos u.mentions_text, u.strchr_slash]
  dsimp only
  rw [fits, if_pos u.length_server, Outcome.bind_done, copyFilename_eq around u.length_text]
  split <;> rfl

theorem serverName_of_lookUp {gFilename serverName : Text} {serverPort : Nat} {p : Parsed}
    (h : lookUp resolver gFilename serverName serverPort = .done (some p)) : p.serverName = cString serverName := by
  unfold lookUp at h
  split at h
  · obtain ⟨ip, -, heq⟩ := Outcome.map_eq_done.1 h
    cases heq
    rfl
  · cases h

/-- Where a null is behind the host, the lookup is right unless the host is too long an address. -/
theorem lookUp_iff {behind rest tail : Text} :
    (∃ p, lookUp resolver ('/' :: (u.path ++ '\x00' :: behind) ++ rest) (u.host ++ '\x00' :: tail) u.portNumber = .done (some p) ∧
      p.Is resolver u) ↔ (resolver.inetAton u.host = true → u.host.length < 16) := by
  have hname : cString (u.host ++ '\x00' :: tail) = u.host := by
    rw [Http.cString_append (u.notMem_host (.inr (.inr rfl)))]
    exact List.append_nil _
  have hpath : cString ('/' :: (u.path ++ '\x00' :: behind) ++ rest) = '/' :: u.path := by
    have hcut := Http.cString_append (l := '/' :: u.path) (by simp [u.path_clean]) ('\x00' :: (behind ++ rest))
    rw [List.cons_append, List.append_assoc]
    exact hcut.trans (List.append_nil _)
  rw [lookUp, if_pos (by simp), hname, resolve_eq]
  constructor
  · rintro ⟨p, hp, -⟩
    by_contra hnot
    rw [if_neg hnot] at hp
    cases hp
  · intro h
    rw [if_pos h]
    exact ⟨_, rfl, by simp, hpath, rfl, rfl⟩

/-- URLs are parsed right where their parts can be copied. -/
theorem parsesRight_iff : ParsesRight resolver around u ↔ Parsable resolver around u := by
  unfold ParsesRight Parsable
  rw [ftpParseUrl_text]
  by_cases hroom : 5 ≤ around.behind.length ∧ u.path.length + 7 ≤ filenameMax
  · rw [if_pos hroom]
    cases hport : u.port with
    | none =>
      rw [u.splitServer_of_none around hport, Outcome.bind_done, lookUp_iff]
      simp [hroom]
    | some t =>
      have hlen := u.server_length
      rw [hport, Option.elim_some] at hlen
      obtain ⟨ch, rest, hdrop⟩ : ∃ ch rest, around.serverName.drop u.host.length = ch :: rest := by
        refine List.exists_cons_of_ne_nil (List.ne_nil_of_length_pos ?_)
        rw [List.length_drop, around.length_serverName]
        omega
      have hget : around.serverName[u.host.length]? = some ch := by
        rw [← List.head?_drop, hdrop]
        rfl
      rw [u.splitServer_of_some around hport, hdrop, hget]
      by_cases ht : t.length < 15
      · rw [if_pos ht, Outcome.bind_done]
        by_cases hch : ch = '\x00'
        · subst hch
          rw [lookUp_iff]
          simp [hroom, ht]
        · refine iff_of_false ?_ fun h => hch (Option.some.inj (h.2.2.1 t rfl).2)
          rintro ⟨p, hp, his⟩
          have hname := serverName_of_lookUp hp
          rw [his.host, Http.cString_append (u.notMem_host (.inr (.inr rfl)))] at hname
          have hlong := congrArg List.length hname
          rw [List.length_append, cString, List.takeWhile_cons_of_pos (by simpa using hch), List.length_cons] at hlong
          omega
      · rw [if_neg ht]
        refine iff_of_false ?_ fun h => ht (h.2.2.1 t rfl).1
        rintro ⟨p, hp, -⟩
        cases hp
  · rw [if_neg hroom]
    refine iff_of_false ?_ fun h => hroom ⟨h.1, h.2.1⟩
    rintro ⟨p, hp, -⟩
    cases hp

/-- **Replies and URLs are parsed right** if and only if the fields of the reply are there and fit the arrays that they are copied to, and
the parts of the URL can be copied with what the code takes along. -/
theorem fieldsRight_iff (cmd : Cmd) (arrays : Arrays) (respline : Text) (resolver : Resolver) (around : Surroundings) (u : Url) :
    (FetchesRight cmd arrays respline ↔ Fetchable cmd arrays respline) ∧ (ParsesRight resolver around u ↔ Parsable resolver around u) :=
  ⟨fetchesRight_iff, parsesRight_iff⟩

def nulls : Arrays := ⟨List.replicate 4 '\x00', List.replicate 4 '\x00', 0, rfl, rfl⟩

/-- A reply to SIZE that has no text. -/
theorem not_fieldsRight : ¬((∀ (cmd : Cmd) (arrays : Arrays) (respline : Text), FetchesRight cmd arrays respline) ∧
    ∀ (resolver : Resolver) (around : Surroundings) (u : Url), ParsesRight resolver around u) := by
  rintro ⟨h, -⟩
  exact (h .size nulls ['2', '1', '3']).1 rfl

/-- Where the arrays hold nulls before, a port is read from a reply. -/
example : fetched .pasv nulls "227 Passive (10,0,0,1,4,210).".toList = .done (.address "10.0.0.1".toList 1234) := by decide

end CodeFactory.Ftp
