import AmebaRtos.Lib.CString
import AmebaRtos.Lib.Word
import AmebaRtos.Ota.Header

/-!
# The response to the download request

`ota_http_parse_response` and `ota_http_recv_response` of `ota_http.c`. The response is searched
for the status code, `Content-Length` and the blank line. A read that ends inside the header is to
be continued: its last 32 bytes are kept in `header_bak` and put in front of the next read. But
`ota_http_recv_response` clears the structure, with this pointer in it, before it parses the first
read: whatever needs the backup is a copy to or from a null pointer.
-/

namespace AmebaRtos.Ota

open Lib List

def OTA_HEADER_BAK_LEN : Nat := 32

def CRLF : List UInt8 := [13, 10]

/-- The bytes of `Content-Length`. -/
def CONTENT_LENGTH : List UInt8 :=
  [67, 111, 110, 116, 101, 110, 116, 45, 76, 101, 110, 103, 116, 104]

/-- The bytes of `CONTENT-LENGTH`. -/
def CONTENT_LENGTH_UPPER : List UInt8 :=
  [67, 79, 78, 84, 69, 78, 84, 45, 76, 69, 78, 71, 84, 72]

/-- Length of `Content-Length: `. -/
def CONTENT_LENGTH_SKIP : Nat := 16

/-- The stages of `parse_status`. -/
inductive ParseStatus where
  | start
  | gotStatus
  | gotLength
  | gotLengthOnly
  | complete
deriving DecidableEq, Repr

/-- `ota_http_response_t`. `body` is always `header_len` bytes into the buffer. -/
structure HttpResponse where
  statusCode : Nat
  parseStatus : ParseStatus
  bodyLen : Nat
  headerLen : Nat
  headerBak : Option (List UInt8)
deriving DecidableEq, Repr

def HttpResponse.zero : HttpResponse := ⟨0, .start, 0, 0, none⟩

/-- Undefined behaviour: an access through the null pointer `header_bak`, a copy from in front of
    the buffer, or a search that leaves a buffer without a zero. -/
inductive HttpFault where
  | nullBackup
  | beforeBuffer
  | unterminated
deriving DecidableEq, Repr

/-- `strstr` in the buffer. -/
def searchBuf (buf needle : List UInt8) : Except HttpFault (Option Nat) :=
  match strstr (CStr.ofBytes buf).val needle with
  | some i => .ok (some i)
  | none => if 0 ∈ buf then .ok none else .error .unterminated

variable (response : List UInt8) (responseLen : Nat)

/-- The copy of the last bytes of the response to `header_bak`. -/
def saveBackup (result : HttpResponse) : Except HttpFault HttpResponse :=
  match result.headerBak with
  | none => .error .nullBackup
  | some _ =>
    if responseLen < OTA_HEADER_BAK_LEN then .error .beforeBuffer
    else
      let bak := (response.take responseLen).drop (responseLen - OTA_HEADER_BAK_LEN)
      .ok { result with headerBak := some bak }

/-- The status line; `none` is `OTA_ERR`, also for a redirection. -/
def parseStatusLine (result : HttpResponse) : Except HttpFault (Option HttpResponse) := do
  match ← searchBuf response CRLF with
  | none => return none
  | some _ =>
    let statusCode := u32 (atoi (response.drop 9))
    if statusCode = 200 then
      return some { result with statusCode := statusCode, parseStatus := .gotStatus }
    else return none

/-- The blank line starts `ptrBodyEnd` bytes into the response. -/
def HttpResponse.endHeader (result : HttpResponse) (ptrBodyEnd : Nat) : HttpResponse :=
  { result with parseStatus := .complete, headerLen := ptrBodyEnd + 4 }

def parseHeaderEnd (result : HttpResponse) : Except HttpFault HttpResponse := do
  match ← searchBuf response (CRLF ++ CRLF) with
  | some ptrBodyEnd => return result.endHeader ptrBodyEnd
  | none => saveBackup response responseLen result

def findContentLength : Except HttpFault (Option Nat) := do
  match ← searchBuf response CONTENT_LENGTH with
  | some i => return some i
  | none => searchBuf response CONTENT_LENGTH_UPPER

/-- The search for the length and the end of the header; `none` is `OTA_ERR`. -/
def parseContentLength (result : HttpResponse) : Except HttpFault (Option HttpResponse) := do
  let tmpPtr ← findContentLength response
  let result := match tmpPtr with
    | some i =>
      { result with
        bodyLen := u32 (atoi (response.drop (i + CONTENT_LENGTH_SKIP)))
        parseStatus := .gotLength }
    | none => result
  match ← searchBuf response (CRLF ++ CRLF) with
  | some ptrBodyEnd =>
    if result.parseStatus = .gotLength then return some (result.endHeader ptrBodyEnd)
    else return none
  | none =>
    if result.parseStatus = .gotLength then
      return some (← saveBackup response responseLen { result with parseStatus := .gotLengthOnly })
    else return some (← saveBackup response responseLen result)

/-- `ota_http_parse_response`; `none` is `OTA_ERR`. -/
def otaHttpParseResponse (result : HttpResponse) : Except HttpFault (Option HttpResponse) := do
  let some result ← (if result.parseStatus = .start then parseStatusLine response result
    else pure (some result)) | return none
  let result ← (if result.parseStatus = .gotLengthOnly then
    parseHeaderEnd response responseLen result else pure result)
  if result.parseStatus = .gotStatus then parseContentLength response responseLen result
  else return some result

/-- `ota_http_recv_response` ends with undefined behaviour, with -1, or with the header parsed, the
    rest of the read in `NextImgBuf` and the reads still to come. -/
inductive HttpOutcome where
  | fault (fault : HttpFault)
  | failed
  | received (result : HttpResponse) (nextImg : List UInt8) (rest : List (List UInt8))
deriving DecidableEq, Repr

def recvBuf (bytes : List UInt8) : List UInt8 :=
  bytes ++ List.replicate (OTA_BUF_SIZE - bytes.length) 0

/-- The loop of `ota_http_recv_response` over the reads. `gotLength` is never left by the parser.
-/
def recvLoop (result : HttpResponse) : List (List UInt8) → HttpOutcome
  | [] => .failed
  | bytes :: rest =>
    if bytes = [] then .failed
    else
      let prepared : Except HttpFault (List UInt8 × HttpResponse) :=
        if result.parseStatus = .start then .ok (bytes, .zero)
        else
          match result.headerBak with
          | none => .error .nullBackup
          | some bak => .ok (bak ++ bytes, result)
      match prepared with
      | .error fault => .fault fault
      | .ok (data, result) =>
        match otaHttpParseResponse (recvBuf data) data.length result with
        | .error fault => .fault fault
        | .ok none => .failed
        | .ok (some result) =>
          if result.parseStatus = .complete then
            if result.bodyLen = 0 then .failed
            else .received result (data.drop result.headerLen) rest
          else recvLoop result rest

def otaHttpRecvResponse (reads : List (List UInt8)) : HttpOutcome :=
  recvLoop { HttpResponse.zero with
    headerBak := some (List.replicate (OTA_HEADER_BAK_LEN + 1) 0) } reads

/-! ### The header of a response -/

/-- The header of a response that fits the buffer: a status line with a code, `Content-Length` with
    a value, and the blank line that ends it. -/
structure HttpHeader where
  bytes : List UInt8
  noZero : 0 ∉ bytes
  fits : bytes.length ≤ OTA_BUF_SIZE
  blankLine : strstr bytes (CRLF ++ CRLF) = some (bytes.length - 4)
  lineEnd : Nat
  firstLine : strstr bytes CRLF = some lineEnd
  code : ∃ b ∈ (bytes.take (lineEnd + 2)).drop 9, isSpace b = false
  lengthAt : Nat
  contentLength : strstr bytes CONTENT_LENGTH = some lengthAt
  value : ∃ b ∈ bytes.drop (lengthAt + CONTENT_LENGTH_SKIP), isSpace b = false

namespace HttpHeader

variable (h : HttpHeader)

def status : Nat := u32 (atoi (h.bytes.drop 9))

def announced : Nat := u32 (atoi (h.bytes.drop (h.lengthAt + CONTENT_LENGTH_SKIP)))

/-- What the parser finds in the header. -/
def result : HttpResponse := ⟨h.status, .complete, h.announced, h.bytes.length, none⟩

theorem four_le : 4 ≤ h.bytes.length := by
  have hle := strstr_le h.blankLine
  simp only [CRLF, cons_append, nil_append, length_cons] at hle
  omega

theorem newline_suffix : [10] <:+ h.bytes := by
  have hend := strstr_spec h.blankLine
  have hlen : (h.bytes.drop (h.bytes.length - 4)).length = (CRLF ++ CRLF).length := by
    have := h.four_le
    rw [length_drop]
    simp only [CRLF, cons_append, nil_append, length_cons, length_nil]
    omega
  have heq := hend.eq_of_length hlen.symm
  refine List.IsSuffix.trans ?_ (drop_suffix (h.bytes.length - 4) h.bytes)
  rw [← heq]
  exact ⟨[13, 10, 13], rfl⟩

theorem line_suffix : [10] <:+ h.bytes.take (h.lineEnd + 2) := by
  obtain ⟨rest, hrest⟩ := strstr_spec h.firstLine
  refine ⟨h.bytes.take h.lineEnd ++ [13], ?_⟩
  rw [take_add, ← hrest]
  simp [CRLF]

theorem status_eq (hline : h.bytes.take (h.lineEnd + 2) <+: s) :
    u32 (atoi (s.drop 9)) = h.status := by
  obtain ⟨t, rfl⟩ := hline
  have hself := @atoi_drop_line _ (h.bytes.drop (h.lineEnd + 2)) 9 h.line_suffix h.code
  rw [take_append_drop] at hself
  rw [status, atoi_drop_line h.line_suffix h.code, hself]

theorem announced_eq :
    u32 (atoi ((h.bytes ++ t).drop (h.lengthAt + CONTENT_LENGTH_SKIP))) = h.announced := by
  rw [announced, atoi_drop_line h.newline_suffix h.value]

end HttpHeader

/-! ### One read -/

theorem searchBuf_found (hs : 0 ∉ s) (hfound : strstr s needle = some i) (t : List UInt8) :
    searchBuf (s ++ t) needle = .ok (some i) := by
  unfold searchBuf
  rw [ofBytes_append hs, strstr_append hfound]

theorem searchBuf_terminated (hs : 0 ∉ s) :
    searchBuf (s ++ 0 :: t) needle = .ok (strstr s needle) := by
  unfold searchBuf
  rw [ofBytes_append_zero hs]
  cases strstr s needle <;> simp

section Reads

variable (h : HttpHeader)

theorem otaHttpParseResponse_whole (t : List UInt8) (responseLen : Nat) :
    otaHttpParseResponse (h.bytes ++ t) responseLen .zero =
      .ok (if h.status = 200 then some h.result else none) := by
  have hcrlf := searchBuf_found h.noZero h.firstLine t
  have hlength := searchBuf_found h.noZero h.contentLength t
  have hblank := searchBuf_found h.noZero h.blankLine t
  have hline := take_prefix (h.lineEnd + 2) h.bytes
  have hstatus := h.status_eq (hline.trans (prefix_append h.bytes t))
  have hend : h.bytes.length - 4 + 4 = h.bytes.length := Nat.sub_add_cancel h.four_le
  by_cases hok : h.status = 200
  · simp [otaHttpParseResponse, parseStatusLine, parseContentLength, findContentLength, hcrlf,
      hlength, hblank, hstatus, hok, HttpResponse.zero, HttpResponse.endHeader, HttpHeader.result,
      h.announced_eq, hend, bind, Except.bind, pure, Except.pure]
  · simp [otaHttpParseResponse, parseStatusLine, hcrlf, hstatus, hok, HttpResponse.zero, bind,
      Except.bind, pure, Except.pure]

/-- **A buffer with the start of the header.** Without the end of the status line it is given up;
    behind it, continued. -/
theorem otaHttpParseResponse_part (hbytes : h.bytes = part ++ rest) (hrest : rest ≠ [])
    (t : List UInt8) (responseLen : Nat) :
    otaHttpParseResponse (part ++ 0 :: t) responseLen .zero =
      if part.length < h.lineEnd + 2 ∨ h.status ≠ 200 then .ok none
      else .error .nullBackup := by
  have hzero : 0 ∉ part := by
    intro hmem
    apply h.noZero
    rw [hbytes]
    exact mem_append_left rest hmem
  have hcrlf := h.firstLine
  have hblank := h.blankLine
  have hfour := h.four_le
  have hlong : 0 < rest.length := length_pos_iff.mpr hrest
  rw [hbytes] at hcrlf hblank hfour
  rw [length_append] at hblank hfour
  have hblank := strstr_short hblank (by
    change part.length < part.length + rest.length - 4 + 4
    omega)
  by_cases hline : part.length < h.lineEnd + 2
  · -- not even the status line
    have hnone := strstr_short hcrlf hline
    rw [if_pos (.inl hline)]
    simp [otaHttpParseResponse, parseStatusLine, searchBuf_terminated hzero, hnone,
      HttpResponse.zero, bind, Except.bind, pure, Except.pure]
  have hfound := strstr_within hcrlf (not_lt.mp hline)
  have hstart : h.bytes.take (h.lineEnd + 2) <+: part ++ 0 :: t := by
    rw [hbytes, take_append_of_le_length (not_lt.mp hline)]
    have hline := take_prefix (h.lineEnd + 2) part
    exact hline.trans (prefix_append _ _)
  have hstatus := h.status_eq hstart
  by_cases hok : h.status = 200
  · rw [if_neg (by simp [hline, hok])]
    simp only [otaHttpParseResponse, parseStatusLine, parseContentLength, findContentLength,
      searchBuf_terminated hzero, hfound, hblank, hstatus, hok, HttpResponse.zero, bind,
      Except.bind, pure, Except.pure]
    cases strstr part CONTENT_LENGTH with
    | some i => simp [saveBackup]
    | none =>
      cases strstr part CONTENT_LENGTH_UPPER <;> simp [saveBackup]
  · rw [if_pos (.inr hok)]
    simp [otaHttpParseResponse, parseStatusLine, searchBuf_terminated hzero, hfound, hstatus,
      hok, HttpResponse.zero, bind, Except.bind, pure, Except.pure]

/-! ### The reads of a response -/

theorem otaHttpRecvResponse_whole (body : List UInt8) (rest : List (List UInt8)) :
    otaHttpRecvResponse ((h.bytes ++ body) :: rest) =
      if h.status = 200 ∧ h.announced ≠ 0 then .received h.result body rest else .failed := by
  have hne : h.bytes ++ body ≠ [] := by
    have hfour := h.four_le
    intro hnil
    simp [(append_eq_nil_iff.mp hnil).1] at hfour
  have hparse := otaHttpParseResponse_whole h
    (body ++ List.replicate (OTA_BUF_SIZE - (h.bytes ++ body).length) 0) (h.bytes ++ body).length
  rw [← append_assoc] at hparse
  simp only [otaHttpRecvResponse, recvLoop, if_neg hne, HttpResponse.zero, if_true]
  simp only [HttpResponse.zero] at hparse
  rw [recvBuf, hparse]
  by_cases hok : h.status = 200
  · by_cases hzero : h.announced = 0
    · simp [hok, HttpHeader.result]
    · simp [hok, HttpHeader.result]
  · simp [hok]

theorem otaHttpRecvResponse_part (hbytes : h.bytes = part ++ rest) (hpart : part ≠ [])
    (hrest : rest ≠ []) (reads : List (List UInt8)) :
    otaHttpRecvResponse (part :: reads) =
      if part.length < h.lineEnd + 2 ∨ h.status ≠ 200 then .failed else .fault .nullBackup := by
  have hroom : OTA_BUF_SIZE - part.length ≠ 0 := by
    have hfits := h.fits
    have hlong : 0 < rest.length := length_pos_iff.mpr hrest
    rw [hbytes, length_append] at hfits
    omega
  obtain ⟨n, hn⟩ := Nat.exists_eq_succ_of_ne_zero hroom
  have hparse := otaHttpParseResponse_part h hbytes hrest (List.replicate n 0) part.length
  simp only [otaHttpRecvResponse, recvLoop, if_neg hpart, HttpResponse.zero, if_true]
  simp only [HttpResponse.zero] at hparse
  rw [recvBuf, hn, replicate_succ, hparse]
  by_cases hstop : part.length < h.lineEnd + 2 ∨ h.status ≠ 200
  · simp only [if_pos hstop]
  · simp only [if_neg hstop]

end Reads

/-- The reads give what one read gives: the same failure, or the same status and length, with the
    body so far in `NextImgBuf`. -/
def SplitAgrees (h : HttpHeader) (reads : List (List UInt8)) : Prop :=
  match otaHttpRecvResponse [h.bytes] with
  | .received whole _ _ =>
    ∃ result nextImg rest, otaHttpRecvResponse reads = .received result nextImg rest ∧
      result.parseStatus = whole.parseStatus ∧ result.statusCode = whole.statusCode ∧
      result.bodyLen = whole.bodyLen ∧ h.bytes ++ nextImg ++ rest.flatten = reads.flatten
  | outcome => otaHttpRecvResponse reads = outcome

/-- The header comes with the first read; or it refuses the request, or announces no body and the
    first read ends in the status line. -/
def ReadInOne (h : HttpHeader) (reads : List (List UInt8)) : Prop :=
  h.bytes.length ≤ (reads.headD []).length ∨ h.status ≠ 200 ∨
    h.announced = 0 ∧ (reads.headD []).length < h.lineEnd + 2
deriving Decidable

/-- **The splits of a response that are received.** For every response and every way of
    splitting it into reads, exactly when the header comes with the first read. -/
theorem split_agrees_iff (h : HttpHeader) (body : List UInt8) (reads : List (List UInt8))
    (hreads : ∀ bytes ∈ reads, bytes ≠ []) (hsplit : reads.flatten = h.bytes ++ body) :
    SplitAgrees h reads ↔ ReadInOne h reads := by
  have hwhole := otaHttpRecvResponse_whole h [] []
  rw [append_nil] at hwhole
  obtain ⟨first, rest, rfl⟩ : ∃ first rest, reads = first :: rest := by
    cases reads with
    | nil =>
      have hfour := h.four_le
      simp [(append_eq_nil_iff.mp hsplit.symm).1] at hfour
    | cons first rest => exact ⟨first, rest, rfl⟩
  have hne := hreads first (mem_cons_self ..)
  unfold SplitAgrees ReadInOne
  rw [hwhole]
  rcases lt_or_ge first.length h.bytes.length with hshort | hlong
  · -- the first read ends inside the header
    obtain ⟨tail, htail⟩ : first <+: h.bytes :=
      prefix_of_prefix_length_le ⟨_, hsplit⟩ (prefix_append _ _) (le_of_lt hshort)
    have htailne : tail ≠ [] := by
      rintro rfl
      rw [← htail, append_nil] at hshort
      exact absurd hshort (lt_irrefl _)
    rw [otaHttpRecvResponse_part h htail.symm hne htailne]
    by_cases hok : h.status = 200
    · by_cases hzero : h.announced = 0
      · by_cases hline : first.length < h.lineEnd + 2
        · simp [hzero, hline]
        · simp [hok, hzero, hline, hshort]
      · by_cases hline : first.length < h.lineEnd + 2
        · simp [hok, hzero, hline, hshort]
        · simp [hok, hzero, hline, hshort]
    · simp [hok]
  · obtain ⟨extra, rfl⟩ : h.bytes <+: first :=
      prefix_of_prefix_length_le (prefix_append _ _) ⟨_, hsplit⟩ hlong
    rw [otaHttpRecvResponse_whole h extra rest]
    by_cases hok : h.status = 200
    · by_cases hzero : h.announced = 0
      · simp [hzero]
      · simp [hok, hzero]
    · simp [hok]

/-- `HTTP/1.1 200 OK` with a `Content-Length` of 5. -/
def fiveBytes : HttpHeader where
  bytes := [72, 84, 84, 80, 47, 49, 46, 49, 32, 50, 48, 48, 32, 79, 75] ++ CRLF ++
    CONTENT_LENGTH ++ [58, 32, 53] ++ CRLF ++ CRLF
  noZero := by decide
  fits := by decide
  blankLine := by decide
  lineEnd := 15
  firstLine := by decide
  code := by decide
  lengthAt := 17
  contentLength := by decide
  value := by decide

/-- The header with two bytes of the body, and the rest of the body. -/
theorem split_agrees_body : SplitAgrees fiveBytes [fiveBytes.bytes ++ [1, 2], [3, 4, 5]] :=
  (split_agrees_iff fiveBytes [1, 2, 3, 4, 5] _ (by decide) (by decide)).mpr (by decide)

/-- The header in two reads, cut behind the status line: the copy of its last bytes goes to
    a null pointer. -/
theorem split_header_faults :
    [fiveBytes.bytes.take 17, fiveBytes.bytes.drop 17 ++ [1, 2, 3, 4, 5]].flatten =
        fiveBytes.bytes ++ [1, 2, 3, 4, 5] ∧
      otaHttpRecvResponse [fiveBytes.bytes.take 17, fiveBytes.bytes.drop 17 ++ [1, 2, 3, 4, 5]] =
        .fault .nullBackup ∧
      ¬ SplitAgrees fiveBytes
        [fiveBytes.bytes.take 17, fiveBytes.bytes.drop 17 ++ [1, 2, 3, 4, 5]] := by
  have hfault : otaHttpRecvResponse
      [fiveBytes.bytes.take 17, fiveBytes.bytes.drop 17 ++ [1, 2, 3, 4, 5]] =
        .fault .nullBackup := by
    decide +kernel
  have hwhole : otaHttpRecvResponse [fiveBytes.bytes] =
      .received ⟨200, .complete, 5, fiveBytes.bytes.length, none⟩ [] [] := by
    decide +kernel
  refine ⟨by decide, hfault, ?_⟩
  unfold SplitAgrees
  rw [hwhole, hfault]
  rintro ⟨result, nextImg, rest, h, _⟩
  cases h

end AmebaRtos.Ota
