import MeshChat.Chat.Windows
import MeshChat.Stdio

/-!
# What a sender reads out of its message buffer

The loop of the `sender` program for any username on its command line. The
count that it passes to `sendto` is the value that `snprintf` returned, so it
covers the whole text, stored or not.
-/
namespace MeshChat.Chat

/-- A `sendto`: the characters in `message` before its terminator, and the count. -/
structure SendCall where
  stored : List UInt8
  count : ℕ
  deriving DecidableEq

/-- The bytes that it puts on the group; `behind` follows the terminator, first in
`message` and then behind it. -/
def SendCall.data (call : SendCall) (behind : List UInt8) : List UInt8 :=
  (call.stored ++ 0 :: behind).take call.count

/-- The text `[username]: line`. -/
def messageText (username : CStr) (line : List UInt8) : List UInt8 :=
  91 :: username.bytes ++ [93, 58, 32] ++ line

@[simp] theorem messageText_length (username : CStr) (line : List UInt8) :
    (messageText username line).length = strlen username + line.length + 4 := by
  simp only [messageText, strlen, List.length_append, List.length_cons, List.length_nil]
  omega

/-- One turn of the loop with what `fgets` returned. -/
def senderTurn (username : CStr) (input : CharArray bufferSize) : Option SendCall :=
  let line := stripNewline input
  if line = [] then none
  else
    let r := snprintf bufferSize (messageText username line)
    if r.1 < 0 then none else some ⟨r.2, r.1.toNat⟩

/-- The whole loop, until the input ends. -/
def senderLoop (username : CStr) (stdin : List UInt8) : List SendCall :=
  (fgetsLines bufferSize (by decide) stdin).filterMap (senderTurn username)

/-- A turn sends only bytes that `snprintf` stored, so only bytes of the text. -/
def ReadsWithin (username : CStr) (input : CharArray bufferSize) : Prop :=
  ∀ call, senderTurn username input = some call →
    call.count ≤ call.stored.length ∧
      ∀ behind, call.data behind <+: messageText username (stripNewline input)

/-- Nothing is sent, or the text fits, or `snprintf` reports that it has no number
for its length. -/
def FitsMessage (username : CStr) (input : CharArray bufferSize) : Prop :=
  let size := strlen username + (stripNewline input).length + 4
  stripNewline input = [] ∨ size < bufferSize ∨ intMax < size

variable {username : CStr} {input : CharArray bufferSize}

/-- A turn that sends passes the length of the whole text. -/
theorem senderTurn_eq_some {call : SendCall} : senderTurn username input = some call ↔
    stripNewline input ≠ [] ∧ strlen username + (stripNewline input).length + 4 ≤ intMax ∧
      call = ⟨(messageText username (stripNewline input)).take (bufferSize - 1),
        strlen username + (stripNewline input).length + 4⟩ := by
  simp only [senderTurn, snprintf, messageText_length]
  by_cases hline : stripNewline input = []
  · simp [hline]
  · by_cases hmax : strlen username + (stripNewline input).length + 4 ≤ intMax
    · simp only [hline, hmax, if_true, if_false, ne_eq, not_false_eq_true, true_and]
      rw [if_neg (by omega), Option.some.injEq, Int.toNat_natCast, eq_comm]
    · simp [hline, hmax]

theorem count_le_stored_iff {call : SendCall} (h : senderTurn username input = some call) :
    call.count ≤ call.stored.length ↔
      strlen username + (stripNewline input).length + 4 < bufferSize := by
  obtain ⟨-, -, rfl⟩ := senderTurn_eq_some.mp h
  simp only [List.length_take, messageText_length]
  omega

theorem data_prefix {call : SendCall} (h : senderTurn username input = some call)
    (hcount : call.count ≤ call.stored.length) (behind : List UInt8) :
    call.data behind <+: messageText username (stripNewline input) := by
  obtain ⟨-, -, rfl⟩ := senderTurn_eq_some.mp h
  rw [SendCall.data, List.take_append_of_le_length hcount]
  exact (List.take_prefix _ _).trans (List.take_prefix _ _)

/-- The count stays within what is stored exactly for the lines that fit. -/
theorem turn_within_iff : (∀ call, senderTurn username input = some call →
    call.count ≤ call.stored.length) ↔ FitsMessage username input := by
  constructor
  · intro h
    by_contra hfits
    obtain ⟨hline, hsize, hmax⟩ : stripNewline input ≠ [] ∧
        ¬ strlen username + (stripNewline input).length + 4 < bufferSize ∧
        ¬ intMax < strlen username + (stripNewline input).length + 4 := by
      rwa [FitsMessage, not_or, not_or] at hfits
    have hsend := senderTurn_eq_some.mpr ⟨hline, not_lt.mp hmax, rfl⟩
    exact hsize ((count_le_stored_iff hsend).mp (h _ hsend))
  · intro hfits call hsend
    obtain ⟨hline, hmax, -⟩ := senderTurn_eq_some.mp hsend
    rcases hfits with hnil | hsize | hlong
    · exact absurd hnil hline
    · exact (count_le_stored_iff hsend).mpr hsize
    · exact absurd hlong (not_lt.mpr hmax)

/-- Exactly the lines that fit are sent without reading past the text. -/
theorem readsWithin_iff (username : CStr) (input : CharArray bufferSize) :
    ReadsWithin username input ↔ FitsMessage username input := by
  rw [← turn_within_iff]
  constructor
  · exact fun h call hsend => (h call hsend).1
  · exact fun h call hsend => ⟨h call hsend, data_prefix hsend (h call hsend)⟩

/-- The longest name that the client lets through. -/
def longName : CStr := ⟨List.replicate 31 97, by decide⟩

/-- A line that fills the input buffer. -/
def longLine : CharArray bufferSize := .ofBytes (List.replicate 255 120)
  (by rw [List.length_replicate]; decide)

/-- 290 bytes are sent of a buffer of 256. -/
theorem longLine_read_past : ¬ ReadsWithin longName longLine := by
  intro h
  have hsend : senderTurn longName longLine = some
      ⟨(messageText longName (stripNewline longLine)).take 255, 290⟩ := by decide +kernel
  exact absurd (h _ hsend).1 (by decide +kernel)

/-- A whole session stays within its texts exactly if each of its lines fits. -/
theorem senderLoop_within_iff (username : CStr) (stdin : List UInt8) :
    (∀ call ∈ senderLoop username stdin, call.count ≤ call.stored.length) ↔
      ∀ input ∈ fgetsLines bufferSize (by decide) stdin, FitsMessage username input := by
  constructor
  · intro h input hinput
    exact turn_within_iff.mp fun call hsend =>
      h call (List.mem_filterMap.mpr ⟨input, hinput, hsend⟩)
  · intro h call hcall
    obtain ⟨input, hinput, hsend⟩ := List.mem_filterMap.mp hcall
    exact turn_within_iff.mpr (h input hinput) call hsend

/-- The datagrams of a chat window are those of its loop. -/
theorem sendLine_data {w : ChatWindow} {behind : List UInt8} {d : Datagram}
    (h : sendLine w input behind = some d) :
    ∃ call, senderTurn w.proc.username.toCStr input = some call ∧ d.data = call.data behind := by
  unfold sendLine at h
  dsimp only at h
  split at h
  · cases h
  · rename_i hline
    obtain ⟨dest, -, rfl⟩ := Option.map_eq_some_iff.mp h
    have hname : strlen w.proc.username.toCStr < 32 := w.proc.username.fits
    have hlen : (stripNewline input).length ≤ input.bytes.length := by
      unfold stripNewline
      split
      · rw [List.length_dropLast]
        exact Nat.sub_le _ _
      · exact le_rfl
    have hfits : input.bytes.length < 256 := input.fits
    have hsize : strlen w.proc.username.toCStr + (stripNewline input).length + 4 ≤ intMax := by
      change _ ≤ 2147483647
      omega
    refine ⟨_, senderTurn_eq_some.mpr ⟨hline, hsize, rfl⟩, ?_⟩
    rw [SendCall.data, ← messageText_length]
    rfl

end MeshChat.Chat
