import CodeFactory.Ehcc.DetectPoints
import CodeFactory.Lib.Arrivals
import CodeFactory.Lib.Overwrite
import CodeFactory.Oal.TcmRet
import Mathlib.Data.List.GetD

/-!
# Reading a message

`ehRead` of `ehSslSocket.c`, on the octets of a connection, which the kernel hands over in pieces of its own; a read can also fail, and
behind all that arrives the peer has closed. A message in memory is its octets, of which the last two of the header are the length of
the value. `malloc` and `realloc` are taken to succeed; what is in the memory that they give is not known.
-/

namespace CodeFactory.Ehcc

open Oal

def sizeofHomeMessage : Nat := 24

def offSetValueLen : Nat := 0x16

/-- The error number of a connection that is broken. -/
def brokenConnection : Nat := 131

/-- The `uint16_t` at an offset. -/
def load16 (littleEndian : Bool) (buf : List UInt8) (off : Nat) : Nat := hostNumber littleEndian (buf.getD off 0) (buf.getD (off + 1) 0)

/-- Write a `uint16_t` to an offset. -/
def store16 (littleEndian : Bool) (buf : List UInt8) (off n : Nat) : List UInt8 := overwrite buf off (hostOctets littleEndian n)

/-- Write octets to a place that may also be in front of the block. -/
def put (block : List UInt8) (place : Int) (bs : List UInt8) : Outcome (List UInt8) :=
  if bs = [] then .done block else if place < 0 then .undefined else writeAt block place.toNat bs

/-- The loop of `ehRead` over the value. The place of `inBuf` is `totalReadSoFar` behind the header. (`rc` is never less than `-1`.) -/
def readValue (littleEndian : Bool) : Nat → (msgTmp : List UInt8) → (totalReadSoFar totalRemaining : Int) → List Arrival →
    Outcome (TcmRet × Option (List UInt8) × List Arrival)
  | 0, _, _, _, _ => .outOfFuel
  | fuel + 1, msgTmp, totalReadSoFar, totalRemaining, as =>
    if totalReadSoFar < load16 littleEndian msgTmp offSetValueLen then
      match read totalRemaining.toNat as with
      | (.error errno, as) =>
        if errno = brokenConnection then .done (.disconnected, none, as)
        else readValue littleEndian fuel msgTmp (totalReadSoFar - 1) (totalRemaining + 1) as
      | (.ok bs, as) =>
        (put msgTmp (sizeofHomeMessage + totalReadSoFar) bs).bind fun msgTmp =>
          readValue littleEndian fuel msgTmp (totalReadSoFar + bs.length) (totalRemaining - bs.length) as
    else .done (.success, some msgTmp, as)

/-- `ehRead`, with what it leaves on the connection, and a bound on the rounds of its loop. -/
def ehRead (littleEndian : Bool) (memory : Nat → UInt8) (fuel : Nat) (as : List Arrival) :
    Outcome (TcmRet × Option (List UInt8) × List Arrival) :=
  match read sizeofHomeMessage as with
  -- with the error number of a broken connection or with another one
  | (.error _, as) => .done (.disconnected, none, as)
  | (.ok bs, as) =>
    if bs.length ≠ sizeofHomeMessage then .done (.disconnected, none, as)
    else
      let msgTmp := store16 littleEndian bs offSetValueLen (htons littleEndian (load16 littleEndian bs offSetValueLen))
      let valueLen := load16 littleEndian msgTmp offSetValueLen
      if 0 < valueLen then readValue littleEndian fuel (msgTmp ++ (List.range valueLen).map memory) 0 valueLen as
      else .done (.success, some msgTmp, as)

/-! ## What a call has to do -/

/-- The length of the value that a header announces. -/
def announced (header : List UInt8) : Nat := hostNumber false (header.getD offSetValueLen 0) (header.getD (offSetValueLen + 1) 0)

/-- The header as `ehRead` leaves it: the length is in the order of the host. -/
def hostHeader (littleEndian : Bool) (header : List UInt8) : List UInt8 :=
  store16 littleEndian header offSetValueLen (announced header)

/-- The block is the next message of the connection, and the rest of the connection is right behind it. -/
def IsNextMessage (littleEndian : Bool) (as : List Arrival) (block : List UInt8) (rest : List Arrival) : Prop :=
  ∃ header value, header.length = sizeofHomeMessage ∧ value.length = announced header ∧
    octetsIn as = header ++ value ++ octetsIn rest ∧ block = hostHeader littleEndian header ++ value

/-- A call ends, writes nothing outside of its block, and gives the next message or reports a disconnect. -/
def ReadsRight (littleEndian : Bool) (as : List Arrival) : Prop :=
  ∀ memory, ∃ ret buf rest, (∃ n, ∀ fuel ≥ n, ehRead littleEndian memory fuel as = .done (ret, buf, rest)) ∧
    (ret = .disconnected ∨ ret = .success ∧ ∃ block, buf = some block ∧ IsNextMessage littleEndian as block rest)

/-- The next `n` octets come without a read that fails in between. -/
def Steady : Nat → List Arrival → Prop
  | 0, _ => True
  | _ + 1, [] => False
  | _ + 1, .failed _ :: _ => False
  | n + 1, .piece b bs :: as => Steady (n + 1 - (b :: bs).length) as

/-- The connection breaks off while a value of `len` octets is read, of which the next one would go to the place `p`. Reads that fail
otherwise move that place back, into the header where there are enough of them; the octets do not reach the end of the value, or what
the header has for its length by then. -/
def BreaksOff (littleEndian : Bool) (len : Nat) : (header : List UInt8) → (p : Int) → List Arrival → Prop
  | _, _, [] => False
  | header, p, .failed errno :: as => errno = brokenConnection ∨ BreaksOff littleEndian len header (p - 1) as
  | header, p, .piece b bs :: as =>
    let header' := (overwrite header (sizeofHomeMessage + p).toNat (b :: bs)).take sizeofHomeMessage
    0 ≤ sizeofHomeMessage + p ∧ p + (b :: bs).length < len ∧ p + (b :: bs).length < load16 littleEndian header' offSetValueLen ∧
      BreaksOff littleEndian len header' (p + (b :: bs).length) as

/-- A call can go right: the header does not come in one piece, or the value comes without a read that fails, or the connection breaks
off in the value. -/
def Readable (littleEndian : Bool) : List Arrival → Prop
  | .piece b bs :: as =>
    let header := (b :: bs).take sizeofHomeMessage
    let rest := leftover ((b :: bs).drop sizeofHomeMessage) ++ as
    (b :: bs).length < sizeofHomeMessage ∨ Steady (announced header) rest ∨
      BreaksOff littleEndian (announced header) (hostHeader littleEndian header) 0 rest
  | _ => True

/-! ## Numbers in a block -/

variable {littleEndian : Bool} {as rest : List Arrival} {H V buf block : List UInt8} {p : Int} {len fuel : Nat}

theorem load16_append (h : offSetValueLen + 1 < H.length) (V : List UInt8) :
    load16 littleEndian (H ++ V) offSetValueLen = load16 littleEndian H offSetValueLen := by
  rw [load16, load16, List.getD_append _ _ _ _ (by omega), List.getD_append _ _ _ _ h]

theorem load16_append_right {off : Nat} (h : H.length ≤ off) (V : List UInt8) :
    load16 littleEndian (H ++ V) off = load16 littleEndian V (off - H.length) := by
  rw [load16, load16, List.getD_append_right _ _ _ _ h, List.getD_append_right _ _ _ _ (by omega), Nat.sub_add_comm h]

theorem load16_header (h : H.length = sizeofHomeMessage) (V : List UInt8) :
    load16 littleEndian (H ++ V) offSetValueLen = load16 littleEndian H offSetValueLen :=
  load16_append (by rw [h]; decide) V

/-! ## The loop -/

/-- At the end of the connection, and where nothing remains to be read, the loop does not end. -/
theorem readValue_stuck (h : as = [] ∨ len = 0) (hp : p < load16 littleEndian buf offSetValueLen) (fuel : Nat) :
    readValue littleEndian fuel buf p len as = .outOfFuel := by
  have hread : read len as = (.ok [], as) := by
    obtain rfl | rfl := h
    · rfl
    · cases as with
      | nil => rfl
      | cons a as => cases a <;> rfl
  induction fuel with
  | zero => rfl
  | succ fuel ih =>
    rw [readValue, if_pos hp, Int.toNat_natCast, hread]
    simpa [put] using ih

/-- A round of the loop upon a piece. -/
theorem readValue_piece (hp : p < load16 littleEndian buf offSetValueLen) (hlen : 0 < len)
    (hbuf : (sizeofHomeMessage : Int) + p + len = buf.length) (b : UInt8) (bs : List UInt8) (as : List Arrival) :
    readValue littleEndian (fuel + 1) buf p len (.piece b bs :: as) =
      if sizeofHomeMessage + p < 0 then .undefined
      else
        readValue littleEndian fuel (overwrite buf (sizeofHomeMessage + p).toNat ((b :: bs).take len)) (p + ((b :: bs).take len).length)
          (len - (b :: bs).length : Nat) (leftover ((b :: bs).drop len) ++ as) := by
  have hne : (b :: bs).take len ≠ [] := by
    obtain ⟨k, rfl⟩ : ∃ k, len = k + 1 := ⟨len - 1, by omega⟩
    exact List.cons_ne_nil _ _
  have hle : ((b :: bs).take len).length ≤ len := List.length_take_le _ _
  have hrest : (len : Int) - ((b :: bs).take len).length = (len - (b :: bs).length : Nat) := by
    rw [List.length_take]
    omega
  rw [readValue, if_pos hp, Int.toNat_natCast, read]
  dsimp only
  rw [put, if_neg hne]
  by_cases hneg : sizeofHomeMessage + p < 0
  · rw [if_pos hneg, if_pos hneg]
    rfl
  · rw [if_neg hneg, if_neg hneg, writeAt_of_le (by omega), Outcome.bind_done, hrest]

theorem readValue_failed (hp : p < load16 littleEndian buf offSetValueLen) (hlen : 0 < len) (errno : Nat) (as : List Arrival) :
    readValue littleEndian (fuel + 1) buf p len (.failed errno :: as) =
      if errno = brokenConnection then .done (.disconnected, none, as)
      else readValue littleEndian fuel buf (p - 1) (len + 1 : Nat) as := by
  rw [readValue, if_pos hp, Int.toNat_natCast, read, if_neg (Nat.ne_of_gt hlen)]
  rfl

theorem readValue_end (hp : load16 littleEndian buf offSetValueLen ≤ p) (len : Int) (as : List Arrival) :
    readValue littleEndian (fuel + 1) buf p len as = .done (.success, some buf, as) := by
  rw [readValue, if_neg (Int.not_lt.2 hp)]

/-- **A value that comes steadily is read.** What has been read of it is `got`, and the memory for the others is `todo`. -/
theorem readValue_of_steady {got todo : List UInt8} (hH : H.length = sizeofHomeMessage)
    (hlen : load16 littleEndian H offSetValueLen = got.length + todo.length) (hsteady : Steady todo.length as) :
    ∃ n value rest, value.length = todo.length ∧ octetsIn as = value ++ octetsIn rest ∧ ∀ fuel ≥ n,
      readValue littleEndian fuel (H ++ (got ++ todo)) got.length todo.length as = .done (.success, some (H ++ (got ++ value)), rest) := by
  induction as generalizing got todo with
  | nil =>
    cases todo with
    | nil =>
      refine ⟨1, [], [], rfl, rfl, fun fuel hfuel => ?_⟩
      obtain ⟨fuel, rfl⟩ : ∃ k, fuel = k + 1 := ⟨fuel - 1, by omega⟩
      rw [readValue_end (by rw [load16_header hH, hlen]; simp)]
    | cons t todo => exact hsteady.elim
  | cons a as ih =>
    by_cases htodo : todo = []
    · subst htodo
      refine ⟨1, [], a :: as, rfl, rfl, fun fuel hfuel => ?_⟩
      obtain ⟨fuel, rfl⟩ : ∃ k, fuel = k + 1 := ⟨fuel - 1, by omega⟩
      rw [readValue_end (by rw [load16_header hH, hlen]; simp)]
    have hpos := List.length_pos_iff.2 htodo
    have hlt : (got.length : Int) < load16 littleEndian (H ++ (got ++ todo)) offSetValueLen := by
      rw [load16_header hH, hlen]
      omega
    have hbuf : (sizeofHomeMessage : Int) + got.length + todo.length = (H ++ (got ++ todo)).length := by
      simp only [List.length_append, hH]
      omega
    obtain ⟨k, hk⟩ : ∃ k, todo.length = k + 1 := ⟨todo.length - 1, by omega⟩
    rw [hk] at hsteady
    cases a with
    | failed errno => exact hsteady.elim
    | piece b bs =>
      rw [Steady, ← hk, ← List.length_drop] at hsteady
      have hplace : ((sizeofHomeMessage : Int) + got.length).toNat = (H ++ got).length := by
        rw [List.length_append, hH]
        omega
      have hwrite : overwrite (H ++ (got ++ todo)) (H ++ got).length ((b :: bs).take todo.length) =
          H ++ ((got ++ (b :: bs).take todo.length) ++ todo.drop (b :: bs).length) := by
        rw [← List.append_assoc, overwrite_length, List.length_take, List.append_assoc, List.append_assoc]
        congr 3
        by_cases hle : (b :: bs).length ≤ todo.length
        · rw [Nat.min_eq_right hle]
        · rw [Nat.min_eq_left (by omega), List.drop_length, List.drop_of_length_le (by omega)]
      by_cases hle : (b :: bs).length ≤ todo.length
      · have htake : (b :: bs).take todo.length = b :: bs := List.take_of_length_le hle
        have hdrop : (b :: bs).drop todo.length = [] := List.drop_of_length_le hle
        have hlen' : load16 littleEndian H offSetValueLen = (got ++ b :: bs).length + (todo.drop (b :: bs).length).length := by
          rw [hlen, List.length_append, List.length_drop]
          omega
        obtain ⟨n, value, rest, hvalue, hoctets, hrun⟩ := ih hlen' hsteady
        rw [List.length_drop] at hvalue
        refine ⟨n + 1, b :: bs ++ value, rest, ?_, ?_, fun fuel hfuel => ?_⟩
        · rw [List.length_append, hvalue]
          omega
        · rw [octetsIn_piece, hoctets, List.append_assoc]
        · obtain ⟨fuel, rfl⟩ : ∃ k, fuel = k + 1 := ⟨fuel - 1, by omega⟩
          rw [readValue_piece hlt hpos hbuf, if_neg (by omega), hplace, hwrite, htake, hdrop]
          have hrun := hrun fuel (by omega)
          rw [List.length_append, List.length_drop, Int.natCast_add] at hrun
          rw [← List.append_assoc got]
          exact hrun
      · have hlast : todo.drop (b :: bs).length = [] := List.drop_of_length_le (by omega)
        refine ⟨2, (b :: bs).take todo.length, leftover ((b :: bs).drop todo.length) ++ as, ?_, ?_, fun fuel hfuel => ?_⟩
        · rw [List.length_take]
          omega
        · rw [octetsIn_piece, octetsIn_leftover, ← List.append_assoc, List.take_append_drop]
        · obtain ⟨fuel, rfl⟩ : ∃ k, fuel = k + 2 := ⟨fuel - 2, by omega⟩
          rw [readValue_piece hlt hpos hbuf, if_neg (by omega), hplace, hwrite, hlast, List.append_nil, readValue_end]
          rw [load16_header hH, hlen, List.length_take]
          omega

/-- The header after a write to the block. -/
theorem exists_overwrite (hH : H.length = sizeofHomeMessage) {off : Nat} {bs : List UInt8}
    (hfits : off + bs.length ≤ (H ++ V).length) :
    ∃ V', overwrite (H ++ V) off bs = (overwrite H off bs).take sizeofHomeMessage ++ V' ∧ V'.length = V.length ∧
      ((overwrite H off bs).take sizeofHomeMessage).length = sizeofHomeMessage := by
  have htake := take_overwrite_append H V off bs
  have hlength := length_overwrite hfits
  rw [List.length_append, hH] at hlength
  rw [hH] at htake
  refine ⟨(overwrite (H ++ V) off bs).drop sizeofHomeMessage, ?_, ?_, ?_⟩
  · rw [← htake, List.take_append_drop]
  · rw [List.length_drop, hlength, Nat.add_sub_cancel_left]
  · rw [← htake, List.length_take, hlength]
    omega

/-- **Where the connection breaks off, that is reported.** -/
theorem readValue_of_breaksOff (hH : H.length = sizeofHomeMessage) (hp : p < load16 littleEndian H offSetValueLen) {left : Nat}
    (hleft : p + left = V.length) (hpos : 0 < left) (hbreaks : BreaksOff littleEndian V.length H p as) :
    ∃ n rest, ∀ fuel ≥ n, readValue littleEndian fuel (H ++ V) p left as = .done (.disconnected, none, rest) := by
  induction as generalizing H V p left with
  | nil => exact hbreaks.elim
  | cons a as ih =>
    have hlt : p < load16 littleEndian (H ++ V) offSetValueLen := by rwa [load16_header hH]
    cases a with
    | failed errno =>
      by_cases herrno : errno = brokenConnection
      · refine ⟨1, as, fun fuel hfuel => ?_⟩
        obtain ⟨fuel, rfl⟩ : ∃ k, fuel = k + 1 := ⟨fuel - 1, by omega⟩
        rw [readValue_failed hlt hpos, if_pos herrno]
      · have hleft' : p - 1 + (left + 1 : Nat) = V.length := by omega
        obtain ⟨n, rest, hrun⟩ := ih hH (by omega) hleft' (Nat.succ_pos _) (hbreaks.resolve_left herrno)
        refine ⟨n + 1, rest, fun fuel hfuel => ?_⟩
        obtain ⟨fuel, rfl⟩ : ∃ k, fuel = k + 1 := ⟨fuel - 1, by omega⟩
        rw [readValue_failed hlt hpos, if_neg herrno]
        exact hrun fuel (by omega)
    | piece b bs =>
      obtain ⟨hplace, hlen, hheader, hbreaks⟩ := hbreaks
      have htake : (b :: bs).take left = b :: bs := List.take_of_length_le (by omega)
      have hdrop : (b :: bs).drop left = [] := List.drop_of_length_le (by omega)
      have hbuf : (sizeofHomeMessage : Int) + p + left = (H ++ V).length := by
        rw [List.length_append, hH]
        omega
      have hfits : (sizeofHomeMessage + p).toNat + (b :: bs).length ≤ (H ++ V).length := by omega
      obtain ⟨V', hwrite, hV', hH'⟩ := exists_overwrite hH hfits
      rw [← hV'] at hbreaks
      have hleft' : p + (b :: bs).length + (left - (b :: bs).length : Nat) = V'.length := by omega
      obtain ⟨n, rest, hrun⟩ := ih hH' hheader hleft' (by omega) hbreaks
      refine ⟨n + 1, rest, fun fuel hfuel => ?_⟩
      obtain ⟨fuel, rfl⟩ : ∃ k, fuel = k + 1 := ⟨fuel - 1, by omega⟩
      rw [readValue_piece hlt hpos hbuf, if_neg (by omega), htake, hdrop, hwrite]
      exact hrun fuel (by omega)

/-- A loop that ends with success has read as many octets as the header has by then, and one more for every read that failed. -/
theorem length_le_of_readValue {left : Int} (hrun : readValue littleEndian fuel buf p left as = .done (.success, some block, rest)) :
    (load16 littleEndian block offSetValueLen : Int) + (octetsIn rest).length ≤ p + (octetsIn as).length := by
  induction fuel generalizing buf p left as with
  | zero => cases hrun
  | succ fuel ih =>
    by_cases hp : p < load16 littleEndian buf offSetValueLen
    · rw [readValue, if_pos hp] at hrun
      cases hread : read left.toNat as with
      | mk r as' =>
        rw [hread] at hrun
        cases r with
        | error errno =>
          rw [eq_of_read_error hread, octetsIn_failed]
          dsimp only at hrun
          split at hrun
          next => cases hrun
          next =>
            have h := ih hrun
            omega
        | ok bs =>
          obtain ⟨buf', -, hrun⟩ := Outcome.bind_eq_done.1 hrun
          have h := ih hrun
          rw [octetsIn_of_read hread, List.length_append]
          omega
    · rw [readValue_end (Int.not_lt.1 hp)] at hrun
      cases hrun
      omega

/-- A loop that ends does so with success or upon a connection that breaks off. -/
theorem success_or_breaksOff {ret : TcmRet} {got : Option (List UInt8)} (hH : H.length = sizeofHomeMessage)
    (hp : p < load16 littleEndian H offSetValueLen) {left : Nat} (hleft : p + left = V.length) (hpos : 0 < left)
    (hrun : readValue littleEndian fuel (H ++ V) p left as = .done (ret, got, rest)) :
    (ret = .success ∧ ∃ block, got = some block) ∨ BreaksOff littleEndian V.length H p as := by
  induction fuel generalizing H V p left as with
  | zero => cases hrun
  | succ fuel ih =>
    have hlt : p < load16 littleEndian (H ++ V) offSetValueLen := by rwa [load16_header hH]
    cases as with
    | nil =>
      rw [readValue_stuck (.inl rfl) hlt] at hrun
      cases hrun
    | cons a as =>
      cases a with
      | failed errno =>
        rw [readValue_failed hlt hpos] at hrun
        by_cases herrno : errno = brokenConnection
        · exact .inr (.inl herrno)
        · rw [if_neg herrno] at hrun
          exact (ih hH (by omega) (by omega) (Nat.succ_pos _) hrun).imp_right .inr
      | piece b bs =>
        have hbuf : (sizeofHomeMessage : Int) + p + left = (H ++ V).length := by
          rw [List.length_append, hH]
          omega
        rw [readValue_piece hlt hpos hbuf] at hrun
        by_cases hneg : sizeofHomeMessage + p < 0
        · rw [if_pos hneg] at hrun
          cases hrun
        have htake : ((b :: bs).take left).length ≤ left := List.length_take_le _ _
        have hfits : (sizeofHomeMessage + p).toNat + ((b :: bs).take left).length ≤ (H ++ V).length := by omega
        obtain ⟨V', hwrite, hV', hH'⟩ := exists_overwrite hH hfits
        rw [if_neg hneg, hwrite] at hrun
        by_cases hend : p + ((b :: bs).take left).length <
            load16 littleEndian ((overwrite H (sizeofHomeMessage + p).toNat ((b :: bs).take left)).take sizeofHomeMessage) offSetValueLen
        · by_cases hle : (b :: bs).length < left
          · have hall : (b :: bs).take left = b :: bs := List.take_of_length_le (by omega)
            have hdrop : (b :: bs).drop left = [] := List.drop_of_length_le (by omega)
            rw [hall] at hH' hend hrun
            rw [hdrop] at hrun
            have h := ih hH' hend (by omega) (by omega) hrun
            rw [hV'] at h
            exact h.imp_right fun h => ⟨by omega, by omega, hend, h⟩
          · rw [Nat.sub_eq_zero_of_le (by omega)] at hrun
            rw [readValue_stuck (.inr rfl) (by rwa [load16_header hH'])] at hrun
            cases hrun
        · cases fuel with
          | zero => cases hrun
          | succ fuel =>
            rw [readValue_end (by rw [load16_header hH']; exact Int.not_lt.1 hend)] at hrun
            cases hrun
            exact .inl ⟨rfl, _, rfl⟩

/-- A loop that ends with success has read the value steadily, or more octets than the header has by then. -/
theorem steady_or_more (hH : H.length = sizeofHomeMessage) (hV : load16 littleEndian H offSetValueLen = V.length) (hp : 0 ≤ p)
    {left : Nat} (hleft : p + left = V.length) (hpos : 0 < left)
    (hrun : readValue littleEndian fuel (H ++ V) p left as = .done (.success, some block, rest)) :
    Steady left as ∨ (load16 littleEndian block offSetValueLen : Int) + (octetsIn rest).length < p + (octetsIn as).length := by
  induction fuel generalizing V p left as with
  | zero => cases hrun
  | succ fuel ih =>
    have hlt : p < load16 littleEndian (H ++ V) offSetValueLen := by
      rw [load16_header hH, hV]
      omega
    cases as with
    | nil =>
      rw [readValue_stuck (.inl rfl) hlt] at hrun
      cases hrun
    | cons a as =>
      cases a with
      | failed errno =>
        rw [readValue_failed hlt hpos] at hrun
        by_cases herrno : errno = brokenConnection
        · rw [if_pos herrno] at hrun
          cases hrun
        · rw [if_neg herrno] at hrun
          have h := length_le_of_readValue hrun
          rw [octetsIn_failed]
          omega
      | piece b bs =>
        obtain ⟨k, rfl⟩ : ∃ k, left = k + 1 := ⟨left - 1, by omega⟩
        rw [Steady]
        by_cases hle : (b :: bs).length < k + 1
        · have hbuf : (sizeofHomeMessage : Int) + p + (k + 1 : Nat) = (H ++ V).length := by
            rw [List.length_append, hH]
            omega
          have hall : (b :: bs).take (k + 1) = b :: bs := List.take_of_length_le (by omega)
          have hdrop : (b :: bs).drop (k + 1) = [] := List.drop_of_length_le (by omega)
          -- nothing of the header is written over
          have hwrite : overwrite (H ++ V) (sizeofHomeMessage + p).toNat (b :: bs) =
              H ++ overwrite V ((sizeofHomeMessage + p).toNat - H.length) (b :: bs) := overwrite_append_right (by omega)
          have hlength : (overwrite V ((sizeofHomeMessage + p).toNat - H.length) (b :: bs)).length = V.length :=
            length_overwrite (by omega)
          rw [readValue_piece hlt hpos hbuf, if_neg (by omega), hall, hdrop, hwrite] at hrun
          obtain h | h := ih (by rw [hlength, hV]) (by omega) (by omega) (by omega) hrun
          · exact .inl h
          · right
            rw [octetsIn_piece, List.length_append]
            have hnil : leftover [] ++ as = as := rfl
            rw [hnil] at h
            omega
        · rw [Nat.sub_eq_zero_of_le (by omega), Steady]
          exact .inl trivial

/-! ## The call -/

theorem length_hostOctets (littleEndian : Bool) (n : Nat) : (hostOctets littleEndian n).length = 2 := by
  cases littleEndian <;> rfl

theorem announced_lt (header : List UInt8) : announced header < 65536 := hostNumber_lt ..

theorem store16_htons (header : List UInt8) :
    store16 littleEndian header offSetValueLen (htons littleEndian (load16 littleEndian header offSetValueLen)) =
      hostHeader littleEndian header := by
  rw [hostHeader, announced, load16, htons_hostNumber]

theorem length_hostHeader (hH : H.length = sizeofHomeMessage) : (hostHeader littleEndian H).length = sizeofHomeMessage := by
  rw [hostHeader, store16, length_overwrite, hH]
  rw [length_hostOctets, hH]
  decide

theorem hostNumber_hostOctets {n : Nat} (h : n < 65536) :
    hostNumber littleEndian ((hostOctets littleEndian n).getD 0 0) ((hostOctets littleEndian n).getD 1 0) = n := by
  unfold hostNumber hostOctets
  cases littleEndian
  · simp
    omega
  · simp
    omega

/-- What is written to an offset is read there. -/
theorem load16_store16 {off n : Nat} (hoff : off + 2 ≤ buf.length) (hn : n < 65536) :
    load16 littleEndian (store16 littleEndian buf off n) off = n := by
  have hleft : (buf.take off).length = off := by
    rw [List.length_take]
    omega
  have htwo := length_hostOctets littleEndian n
  have hget : ∀ i < 2, (store16 littleEndian buf off n).getD (off + i) 0 = (hostOctets littleEndian n).getD i 0 := fun i hi => by
    rw [store16, overwrite, List.append_assoc, List.getD_append_right _ _ _ _ (by omega), hleft, Nat.add_sub_cancel_left,
      List.getD_append _ _ _ _ (by omega)]
  have hfirst := hget 0 (by decide)
  rw [Nat.add_zero] at hfirst
  rw [load16, hfirst, hget 1 (by decide), hostNumber_hostOctets hn]

theorem load16_hostHeader (hH : H.length = sizeofHomeMessage) :
    load16 littleEndian (hostHeader littleEndian H) offSetValueLen = announced H :=
  load16_store16 (by rw [hH]; decide) (announced_lt H)

/-- `ehRead` upon a piece that has the whole header. -/
theorem ehRead_piece {memory : Nat → UInt8} {b : UInt8} {bs : List UInt8} (hpiece : sizeofHomeMessage ≤ (b :: bs).length) :
    ehRead littleEndian memory fuel (.piece b bs :: as) =
      let header := (b :: bs).take sizeofHomeMessage
      let rest := leftover ((b :: bs).drop sizeofHomeMessage) ++ as
      if 0 < announced header then
        readValue littleEndian fuel (hostHeader littleEndian header ++ (List.range (announced header)).map memory) 0 (announced header) rest
      else .done (.success, some (hostHeader littleEndian header), rest) := by
  have hH : ((b :: bs).take sizeofHomeMessage).length = sizeofHomeMessage := List.length_take_of_le hpiece
  rw [ehRead, read]
  dsimp only
  rw [if_neg (not_not_intro hH), store16_htons, load16_hostHeader hH]

theorem readsRight_of_disconnected (rest : List Arrival)
    (h : ∀ memory fuel, ehRead littleEndian memory fuel as = .done (.disconnected, none, rest)) : ReadsRight littleEndian as :=
  fun memory => ⟨_, _, _, ⟨0, fun fuel _ => h memory fuel⟩, .inl rfl⟩

theorem isNextMessage_of_piece {b : UInt8} {bs value : List UInt8} (hpiece : sizeofHomeMessage ≤ (b :: bs).length)
    (hvalue : value.length = announced ((b :: bs).take sizeofHomeMessage))
    (hoctets : octetsIn (leftover ((b :: bs).drop sizeofHomeMessage) ++ as) = value ++ octetsIn rest) :
    IsNextMessage littleEndian (.piece b bs :: as) (hostHeader littleEndian ((b :: bs).take sizeofHomeMessage) ++ value) rest := by
  refine ⟨_, value, List.length_take_of_le hpiece, hvalue, ?_, rfl⟩
  rw [octetsIn_leftover] at hoctets
  rw [List.append_assoc, ← hoctets, ← List.append_assoc, List.take_append_drop, octetsIn_piece]

theorem IsNextMessage.length_eq {b : UInt8} {bs : List UInt8} (h : IsNextMessage littleEndian (.piece b bs :: as) block rest)
    (hpiece : sizeofHomeMessage ≤ (b :: bs).length) :
    (octetsIn (leftover ((b :: bs).drop sizeofHomeMessage) ++ as)).length =
      load16 littleEndian block offSetValueLen + (octetsIn rest).length := by
  obtain ⟨header, value, hheader, hvalue, hoctets, rfl⟩ := h
  have hlength := congrArg List.length hoctets
  rw [octetsIn_piece, List.length_append, List.length_append, List.length_append, hheader, hvalue] at hlength
  rw [load16_header (length_hostHeader hheader), load16_hostHeader hheader, octetsIn_leftover, List.length_append, List.length_drop]
  omega

/-- Behind a header in one piece that announces a value, everything depends on how the value comes. -/
theorem readsRight_piece_iff {b : UInt8} {bs : List UInt8} (hle : sizeofHomeMessage ≤ (b :: bs).length)
    (hpos : 0 < announced ((b :: bs).take sizeofHomeMessage)) :
    ReadsRight littleEndian (.piece b bs :: as) ↔
      Steady (announced ((b :: bs).take sizeofHomeMessage)) (leftover ((b :: bs).drop sizeofHomeMessage) ++ as) ∨
        BreaksOff littleEndian (announced ((b :: bs).take sizeofHomeMessage)) (hostHeader littleEndian ((b :: bs).take sizeofHomeMessage)) 0
          (leftover ((b :: bs).drop sizeofHomeMessage) ++ as) := by
  have hH : ((b :: bs).take sizeofHomeMessage).length = sizeofHomeMessage := List.length_take_of_le hle
  have hhost : (hostHeader littleEndian ((b :: bs).take sizeofHomeMessage)).length = sizeofHomeMessage := length_hostHeader hH
  have hload : load16 littleEndian (hostHeader littleEndian ((b :: bs).take sizeofHomeMessage)) offSetValueLen = _ := load16_hostHeader hH
  rw [ReadsRight]
  simp only [ehRead_piece hle, if_pos hpos]
  have hfresh : ∀ memory : Nat → UInt8, ((List.range (announced ((b :: bs).take sizeofHomeMessage))).map memory).length =
      announced ((b :: bs).take sizeofHomeMessage) := fun memory => by rw [List.length_map, List.length_range]
  constructor
  · intro h
    obtain ⟨ret, buf, rest, ⟨n, hrun⟩, hret⟩ := h fun _ => 0
    have hrun := hrun n le_rfl
    have hlt : (0 : Int) < load16 littleEndian (hostHeader littleEndian ((b :: bs).take sizeofHomeMessage)) offSetValueLen := by
      rw [hload]
      omega
    obtain ⟨rfl, block, rfl⟩ | hbreaks := success_or_breaksOff hhost hlt (by rw [hfresh]; omega) hpos hrun
    · obtain ⟨-, block', hblock, hnext⟩ := hret.resolve_left nofun
      obtain rfl := Option.some.inj hblock
      obtain hsteady | hmore := steady_or_more hhost (by rw [hload, hfresh]) le_rfl (by rw [hfresh]; omega) hpos hrun
      · exact .inl hsteady
      · have hlength := hnext.length_eq hle
        omega
    · rw [hfresh] at hbreaks
      exact .inr hbreaks
  · rintro (hsteady | hbreaks) memory
    · rw [← hfresh memory] at hsteady
      have hlength : load16 littleEndian (hostHeader littleEndian ((b :: bs).take sizeofHomeMessage)) offSetValueLen =
          ([] : List UInt8).length + ((List.range (announced ((b :: bs).take sizeofHomeMessage))).map memory).length := by
        rw [hload, hfresh, List.length_nil, Nat.zero_add]
      obtain ⟨n, value, rest, hvalue, hoctets, hrun⟩ := readValue_of_steady hhost hlength hsteady
      rw [hfresh] at hvalue hrun
      exact ⟨_, _, _, ⟨n, hrun⟩, .inr ⟨rfl, _, rfl, isNextMessage_of_piece hle hvalue hoctets⟩⟩
    · rw [← hfresh memory] at hbreaks
      have hleft : (0 : Int) + (announced ((b :: bs).take sizeofHomeMessage) : Nat) =
          ((List.range (announced ((b :: bs).take sizeofHomeMessage))).map memory).length := by
        rw [hfresh, Int.zero_add]
      obtain ⟨n, rest, hrun⟩ := readValue_of_breaksOff hhost (by rw [hload]; omega) hleft hpos hbreaks
      exact ⟨_, _, _, ⟨n, hrun⟩, .inl rfl⟩

/-- **A message is read right** if and only if its header does not come in one piece, or its value comes steadily, or the connection
breaks off in it. -/
theorem readsRight_iff (littleEndian : Bool) (as : List Arrival) : ReadsRight littleEndian as ↔ Readable littleEndian as := by
  match as with
  | [] => exact iff_of_true (readsRight_of_disconnected [] fun _ _ => rfl) trivial
  | .failed errno :: as => exact iff_of_true (readsRight_of_disconnected as fun _ _ => rfl) trivial
  | .piece b bs :: as =>
    by_cases hpiece : (b :: bs).length < sizeofHomeMessage
    · refine iff_of_true (readsRight_of_disconnected (leftover ((b :: bs).drop sizeofHomeMessage) ++ as) fun memory fuel => ?_) (.inl hpiece)
      have hlength : ((b :: bs).take sizeofHomeMessage).length ≠ sizeofHomeMessage := by
        rw [List.length_take]
        omega
      rw [ehRead, read]
      exact if_pos hlength
    have hle : sizeofHomeMessage ≤ (b :: bs).length := Nat.not_lt.1 hpiece
    rw [Readable]
    simp only [hpiece, false_or]
    by_cases hlen : announced ((b :: bs).take sizeofHomeMessage) = 0
    · rw [hlen, Steady, ReadsRight]
      simp only [ehRead_piece hle, hlen]
      refine iff_of_true (fun memory => ⟨_, _, _, ⟨0, fun fuel _ => if_neg (Nat.lt_irrefl 0)⟩, .inr ⟨rfl, _, rfl, ?_⟩⟩) (.inl trivial)
      have h : IsNextMessage littleEndian (.piece b bs :: as) (hostHeader littleEndian ((b :: bs).take sizeofHomeMessage) ++ []) _ :=
        isNextMessage_of_piece hle hlen.symm rfl
      rwa [List.append_nil] at h
    · exact readsRight_piece_iff hle (Nat.pos_of_ne_zero hlen)

/-- The peer closes behind a header that announces an octet. -/
theorem not_readsRight : ¬∀ (littleEndian : Bool) (as : List Arrival), ReadsRight littleEndian as := by
  intro h
  have hright := h true [.piece 0 ([1, 0, 5] ++ List.replicate 16 0 ++ [0, 1, 0, 1])]
  rw [readsRight_piece_iff (by decide) (by decide)] at hright
  rcases hright with hsteady | hbreaks
  · exact hsteady
  · exact hbreaks

/-- A read that is interrupted moves the rest of the value one octet to the front. -/
example : ¬Readable true [.piece 0 ([1, 0, 6] ++ List.replicate 16 0 ++ [0, 1, 0, 2]), .piece 7 [], .failed 4, .piece 8 [9]] := by
  rintro (hshort | hsteady | hbreaks)
  · revert hshort
    decide
  · exact hsteady
  · revert hbreaks
    simp [BreaksOff, brokenConnection, announced, hostNumber, offSetValueLen, leftover, sizeofHomeMessage, List.replicate]

end CodeFactory.Ehcc
