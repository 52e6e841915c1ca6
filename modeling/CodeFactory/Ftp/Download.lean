import CodeFactory.Ftp.Replies
import CodeFactory.Lib.Arrivals
import CodeFactory.Lib.Machine
import CodeFactory.Lib.Overwrite
import Mathlib.Algebra.Ring.Int.Defs

/-!
# Downloading a file

`ftp_download_file`, on what arrives on the control connection and on the data connection. The URL is taken to be parsed, and both
sockets to be connected. Whether `malloc` succeeds is given, and with it what is in the memory that it gives.
-/

namespace CodeFactory.Ftp

open Conf (intMax)

/-! ## The code -/

/-- What `ftp_download_file` returns. -/
inductive DownloadRet where
  | tcmagentOk | internalError | ftpErrFailed | requestDenied | downloadFailure | fileTransferAuthFailure
  deriving DecidableEq, Repr

/-- What a call leaves: what it returns, and `*fileContent` and `*filesizePtr` where these are written. -/
structure Downloaded where
  ret : DownloadRet
  fileContent : Option (List UInt8)
  filesizePtr : Option Nat
  deriving DecidableEq, Repr

def ftpRcvBufSize : Nat := 1460

/-- A command is sent, and its reply is handled. An error of the server ends the transfer; whatever else is returned is taken for success. -/
def commit (cmd : Cmd) (refused : DownloadRet) (s : Int × Text) : Outcome (Except DownloadRet (Int × Text)) :=
  match ftpHandleCmdResp cmd s.1 s.2 with
  | (.returned .errorResp, _) => .done (.error refused)
  | (.returned _, s) => .done (.ok s)
  | (.waits, _) => .outOfFuel
  | (.undefined, _) => .undefined

/-- The commands, up to the size of the file, and what is left of the control connection. At first anything is in `filesize`. -/
def askSize (username password : Option Text) (filesize : Int) (control : Text) : Outcome (Except DownloadRet (Int × Text)) :=
  if username.isSome ≠ password.isSome then .done (.error .fileTransferAuthFailure)
  else
    (commit .user .fileTransferAuthFailure (filesize, control)).andThen fun s =>
    (commit .pass .fileTransferAuthFailure s).andThen fun s =>
    (commit .pasv .requestDenied s).andThen fun s =>
    (commit .type .requestDenied s).andThen fun s =>
    (commit .retr .requestDenied s).andThen fun s =>
    if s.1 = -1 then commit .size .requestDenied s else .done (.ok s)

/-- The loop over the data connection: what is in the block and how much has come, or nothing where a read fails. `p` is an offset. -/
def receive : Nat → (fileContent : List UInt8) → (p : Nat) → (downCount : Int) → List Arrival → Outcome (Option (List UInt8 × Int))
  | 0, _, _, _, _ => .outOfFuel
  | fuel + 1, fileContent, p, downCount, as =>
    match read ftpRcvBufSize as with
    | (.error _, _) => .done none
    | (.ok [], _) => .done (some (fileContent, downCount))
    | (.ok (b :: bs), as) =>
      (writeAt fileContent p (b :: bs)).bind fun fileContent =>
        if downCount + (b :: bs).length ≤ intMax then receive fuel fileContent (p + (b :: bs).length) (downCount + (b :: bs).length) as
        else .undefined

/-- The `size_t` that `malloc` is called with. -/
def blockSize (m : DataModel) (filesize : Int) : Nat := (filesize % (m.ulongMax + 1 : Nat)).toNat

/-- What is behind the commands, once the size of the file is announced. -/
def storeFile (m : DataModel) (memory : Option (Nat → UInt8)) (fuel : Nat) (filesize : Int) (as : List Arrival) : Outcome Downloaded :=
  let filesizePtr := some (filesize % 2 ^ 32).toNat
  match memory with
  | none => .done ⟨.internalError, none, filesizePtr⟩
  | some memory =>
    (receive fuel ((List.range (blockSize m filesize)).map memory) 0 0 as).map fun
      | none => ⟨.ftpErrFailed, none, filesizePtr⟩
      | some (fileContent, downCount) =>
        if downCount = filesize then ⟨.tcmagentOk, some fileContent, filesizePtr⟩ else ⟨.downloadFailure, none, filesizePtr⟩

/-- `ftp_download_file`, with a bound on the rounds of its loop. It does not come to an end where it waits for a reply. -/
def ftpDownloadFile (m : DataModel) (memory : Option (Nat → UInt8)) (username password : Option Text) (garbage : Int) (control : Text)
    (fuel : Nat) (as : List Arrival) : Outcome Downloaded :=
  (askSize username password garbage control).bind fun
    | .error ret => .done ⟨ret, none, none⟩
    | .ok (filesize, _) => storeFile m memory fuel filesize as

/-! ## What a download has to do -/

/-- The server announces this size on the control connection. -/
def Announces (username password : Option Text) (garbage : Int) (control : Text) (filesize : Int) : Prop :=
  ∃ rest, askSize username password garbage control = .done (.ok (filesize, rest))

/-- No read fails before the server closes the connection. -/
def Lasts (as : List Arrival) : Prop := ∀ a ∈ as, a.octets ≠ []

/-- A call comes to an end, writes nothing outside of its block, and succeeds exactly where there is memory and the connection lasts until
as many octets have come as are announced. Then these are the content, and else there is none. -/
def DownloadsRight (m : DataModel) (memory : Option (Nat → UInt8)) (username password : Option Text) (garbage : Int) (control : Text)
    (filesize : Int) (as : List Arrival) : Prop :=
  ∃ d, (∃ n, ∀ fuel ≥ n, ftpDownloadFile m memory username password garbage control fuel as = .done d) ∧
    (d.ret = .tcmagentOk ↔ memory.isSome ∧ Lasts as ∧ (octetsIn as).length = filesize) ∧
    d.fileContent = if d.ret = .tcmagentOk then some (octetsIn as) else none

instance (as : List Arrival) : Decidable (Lasts as) := List.decidableBAll (fun a : Arrival => a.octets ≠ []) as

/-- The octets that come before a read fails. -/
def untilFailure : List Arrival → List UInt8
  | .piece b bs :: as => b :: bs ++ untilFailure as
  | _ => []

/-- How many octets a call can take: those of the block, and no more than an `int` can count. -/
def capacity (m : DataModel) (filesize : Int) : Nat := min (blockSize m filesize) intMax.toNat

/-! ## The loop -/

variable {m : DataModel} {memory : Option (Nat → UInt8)} {username password : Option Text} {garbage filesize : Int} {control : Text}
  {as : List Arrival} {got room : List UInt8} {fuel : Nat}

@[simp] theorem untilFailure_leftover (bs : List UInt8) (as : List Arrival) : untilFailure (leftover bs ++ as) = bs ++ untilFailure as := by
  cases bs <;> rfl

@[simp] theorem lasts_cons (a : Arrival) (as : List Arrival) : Lasts (a :: as) ↔ a.octets ≠ [] ∧ Lasts as := List.forall_mem_cons

theorem lasts_leftover (bs : List UInt8) (as : List Arrival) : Lasts (leftover bs ++ as) ↔ Lasts as := by
  cases bs with
  | nil => rfl
  | cons b bs => simp [leftover, Arrival.octets]

theorem untilFailure_of_lasts (h : Lasts as) : untilFailure as = octetsIn as := by
  induction as with
  | nil => rfl
  | cons a as ih =>
    obtain ⟨ha, has⟩ := (lasts_cons a as).1 h
    cases a with
    | piece b bs => rw [untilFailure, ih has, octetsIn_piece]
    | failed errno => exact absurd rfl ha

theorem exists_read_piece (b : UInt8) (bs : List UInt8) (as : List Arrival) :
    ∃ c cs behind, b :: bs = c :: cs ++ behind ∧ read ftpRcvBufSize (.piece b bs :: as) = (.ok (c :: cs), leftover behind ++ as) :=
  ⟨b, bs.take 1459, bs.drop 1459, by simp, rfl⟩

/-- What the loop does, behind what it `got` already: it writes all that comes before a read fails, if that fits. -/
theorem receive_eq (hfuel : (octetsIn as).length < fuel) (hgot : (got.length : Int) ≤ intMax) :
    receive fuel (got ++ room) got.length got.length as =
      if (untilFailure as).length ≤ room.length ∧ ((got.length + (untilFailure as).length : Nat) : Int) ≤ intMax then
        .done (if Lasts as then some (got ++ octetsIn as ++ room.drop (octetsIn as).length, ((got.length + (octetsIn as).length : Nat) : Int))
          else none)
      else .undefined := by
  induction fuel generalizing as got room with
  | zero => exact absurd hfuel (Nat.not_lt_zero _)
  | succ fuel ih =>
    rw [receive]
    match as with
    | [] => simp [read, untilFailure, Lasts, hgot]
    | .failed errno :: as => simp [read, untilFailure, Lasts, Arrival.octets, ftpRcvBufSize, hgot]
    | .piece b bs :: as =>
      obtain ⟨c, cs, behind, hpiece, hread⟩ := exists_read_piece b bs as
      have huntil : untilFailure (.piece b bs :: as) = c :: cs ++ untilFailure (leftover behind ++ as) := by
        rw [untilFailure, untilFailure_leftover, hpiece, List.append_assoc]
      have hocts : octetsIn (.piece b bs :: as) = c :: cs ++ octetsIn (leftover behind ++ as) := by
        rw [octetsIn_piece, octetsIn_leftover, hpiece, List.append_assoc]
      have hlasts : Lasts (.piece b bs :: as) ↔ Lasts (leftover behind ++ as) := by
        simp [lasts_leftover, Arrival.octets]
      rw [hocts, List.length_append] at hfuel
      rw [hread, huntil, hocts]
      simp only [hlasts, List.length_append]
      by_cases hroom : (c :: cs).length ≤ room.length
      · have hlength : (got ++ c :: cs).length = got.length + (c :: cs).length := List.length_append
        have hbuf : overwrite (got ++ room) got.length (c :: cs) = got ++ c :: cs ++ room.drop (c :: cs).length := by
          rw [overwrite_length, List.append_assoc]
        rw [writeAt_of_le (by rw [List.length_append]; omega), hbuf, Outcome.bind_done]
        by_cases hcount : (got.length : Int) + (c :: cs).length ≤ intMax
        · have hrun := @ih (leftover behind ++ as) (got ++ c :: cs) (room.drop (c :: cs).length) (by rw [List.length_cons] at hfuel; omega)
            (by rw [hlength, Int.natCast_add]; exact hcount)
          rw [hlength, Int.natCast_add, List.length_drop] at hrun
          rw [if_pos hcount, hrun]
          refine if_congr ?_ ?_ rfl
          · omega
          · simp [Nat.add_assoc, List.drop_drop]
        · rw [if_neg hcount, if_neg (by omega)]
      · rw [writeAt, if_neg (by rw [List.length_append]; omega), if_neg (by omega), Outcome.bind_undefined]

theorem blockSize_natCast {n : Nat} (hn : (n : Int) ≤ intMax) (m : DataModel) : blockSize m n = n := by
  have hlt : n < m.ulongMax + 1 := by
    rw [intMax] at hn
    cases m <;> rw [DataModel.ulongMax] <;> omega
  rw [blockSize, ← Int.natCast_emod, Nat.mod_eq_of_lt hlt, Int.toNat_natCast]

/-- What is behind the commands, where there is memory. -/
theorem storeFile_eq (memory : Nat → UInt8) (hfuel : (octetsIn as).length < fuel) :
    storeFile m (some memory) fuel filesize as =
      if (untilFailure as).length ≤ capacity m filesize then
        .done
          (if Lasts as then
            if (octetsIn as).length = filesize then ⟨.tcmagentOk, some (octetsIn as), some (filesize % 2 ^ 32).toNat⟩
            else ⟨.downloadFailure, none, some (filesize % 2 ^ 32).toNat⟩
          else ⟨.ftpErrFailed, none, some (filesize % 2 ^ 32).toNat⟩)
      else .undefined := by
  have hrun := @receive_eq as [] ((List.range (blockSize m filesize)).map memory) fuel hfuel (by decide)
  simp only [List.nil_append, List.length_nil, Nat.zero_add, List.length_map, List.length_range, Int.natCast_zero] at hrun
  have hcap : (untilFailure as).length ≤ capacity m filesize ↔
      (untilFailure as).length ≤ blockSize m filesize ∧ ((untilFailure as).length : Int) ≤ intMax := by
    rw [capacity, intMax]
    omega
  rw [storeFile]
  rw [hrun, if_congr hcap rfl rfl]
  by_cases hfits : (untilFailure as).length ≤ blockSize m filesize ∧ ((untilFailure as).length : Int) ≤ intMax
  · rw [if_pos hfits, if_pos hfits]
    by_cases hlasts : Lasts as
    · rw [untilFailure_of_lasts hlasts] at hfits
      rw [if_pos hlasts, if_pos hlasts]
      by_cases hsize : ((octetsIn as).length : Int) = filesize
      · have hblock : ((List.range (blockSize m filesize)).map memory).length = (octetsIn as).length := by
          rw [List.length_map, List.length_range, ← hsize, blockSize_natCast hfits.2]
        simp only [Outcome.map, Outcome.bind_done, if_pos hsize, List.drop_of_length_le (Nat.le_of_eq hblock), List.append_nil]
      · simp only [Outcome.map, Outcome.bind_done, if_neg hsize]
    · rw [if_neg hlasts, if_neg hlasts]
      rfl
  · rw [if_neg hfits, if_neg hfits]
    rfl

/-! ## Downloads -/

theorem ftpDownloadFile_eq (h : Announces username password garbage control filesize) :
    ftpDownloadFile m memory username password garbage control fuel as = storeFile m memory fuel filesize as := by
  obtain ⟨rest, hsize⟩ := h
  rw [ftpDownloadFile, hsize]
  rfl

/-- **A download goes right**, in whatever pieces the file comes, if and only if there is no memory or all that comes before a read fails or
the server closes fits the size that is announced. -/
theorem downloadsRight_iff (h : Announces username password garbage control filesize) :
    DownloadsRight m memory username password garbage control filesize as ↔
      memory = none ∨ (untilFailure as).length ≤ capacity m filesize := by
  unfold DownloadsRight
  simp only [ftpDownloadFile_eq h]
  cases memory with
  | none => exact iff_of_true ⟨_, ⟨0, fun fuel _ => rfl⟩, by simp, rfl⟩ (.inl rfl)
  | some memory =>
    constructor
    · rintro ⟨d, ⟨n, hrun⟩, -⟩
      by_contra hnot
      rw [not_or] at hnot
      have hrun := hrun (max n ((octetsIn as).length + 1)) (Nat.le_max_left ..)
      rw [storeFile_eq memory (Nat.lt_of_succ_le (Nat.le_max_right ..)), if_neg hnot.2] at hrun
      cases hrun
    · intro hfits
      have hfits := hfits.resolve_left nofun
      refine ⟨_, ⟨(octetsIn as).length + 1, fun fuel hfuel => (storeFile_eq memory hfuel).trans (if_pos hfits)⟩, ?_⟩
      by_cases hlasts : Lasts as
      · rw [if_pos hlasts]
        by_cases hsize : ((octetsIn as).length : Int) = filesize
        · simp [hlasts, hsize]
        · simp [hlasts, hsize]
      · simp [hlasts]

/-- The replies of a server that announces a file of one octet. -/
def oneOctet : Text := wire ["331 a".toList, "230 b".toList, "227 (1,2,3,4,5,6)".toList, "200 c".toList, "150 (1 d)".toList]

theorem announces_oneOctet : Announces none none 0 oneOctet 1 := by
  refine ⟨[], ?_⟩
  decide +kernel

/-- That octet comes, and the server closes. -/
theorem downloadsRight_oneOctet :
    DownloadsRight .ilp32 (some fun _ => 0) none none 0 oneOctet 1 [.piece 7 []] ↔
      (some fun _ => 0 : Option (Nat → UInt8)) = none ∨ (untilFailure [.piece 7 []]).length ≤ capacity .ilp32 1 :=
  downloadsRight_iff announces_oneOctet

/-- Two octets come. -/
theorem not_downloadsRight : ¬∀ (m : DataModel) (memory : Option (Nat → UInt8)) (username password : Option Text) (garbage : Int)
    (control : Text) (filesize : Int) (as : List Arrival), Announces username password garbage control filesize →
      DownloadsRight m memory username password garbage control filesize as := by
  intro h
  obtain ⟨d, ⟨n, hrun⟩, -⟩ := h .ilp32 (some fun _ => 0) none none 0 oneOctet 1 [.piece 7 [8]] announces_oneOctet
  have hrun := hrun (n + 3) (Nat.le_add_right ..)
  rw [ftpDownloadFile_eq announces_oneOctet, storeFile_eq _ (by rw [octetsIn_piece]; exact Nat.le_add_left ..)] at hrun
  cases hrun

end CodeFactory.Ftp
