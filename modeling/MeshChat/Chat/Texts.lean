import MeshChat.Chat.Sender

/-!
# What the windows show

A sender may put bytes from behind its buffer on the network, but no receiver shows
them: it shows what was stored of the text. A text that fits is shown as it was typed,
and a longer one is cut.
-/
namespace MeshChat.Chat
open Server Client Runs Multicast

/-- A text without NUL, stored and sent with its own length, is shown up to the size of
the buffer, whatever follows it. -/
theorem printedText_stored {text : List UInt8} (hnul : 0 ∉ text) (behind : List UInt8) :
    printedText ((text.take (bufferSize - 1) ++ 0 :: behind).take text.length) =
      text.take (bufferSize - 1) := by
  have htake : ((text.take (bufferSize - 1) ++ 0 :: behind).take text.length).take (bufferSize - 1) =
      text.take (bufferSize - 1) := by
    rw [List.take_take]
    exact List.take_left' (List.length_take ..)
  rw [printedText, htake]
  exact ofBytes_bytes_of_nul_free fun h => hnul (List.mem_of_mem_take h)

theorem messageText_nul_free (username : CStr) {line : List UInt8} (hline : 0 ∉ line) :
    0 ∉ messageText username line := by
  have hname := username.nul_free
  simp [messageText, hname, hline]

theorem stripNewline_nul_free (input : CharArray bufferSize) : 0 ∉ stripNewline input := by
  unfold stripNewline
  split
  · exact fun h => input.nul_free (List.mem_of_mem_dropLast h)
  · exact input.nul_free

/-- What a receiver shows of a sender's turn. -/
theorem printedText_turn {username : CStr} {input : CharArray bufferSize} {call : SendCall}
    (h : senderTurn username input = some call) (behind : List UInt8) :
    printedText (call.data behind) = call.stored := by
  obtain ⟨-, -, rfl⟩ := senderTurn_eq_some.mp h
  rw [SendCall.data, ← messageText_length]
  exact printedText_stored (messageText_nul_free username (stripNewline_nul_free input)) behind

/-- The names of the client's users leave `snprintf` far from its limit. -/
theorem senderTurn_stored (username : Username) (input : CharArray bufferSize) :
    (senderTurn username.toCStr input).map (·.stored) =
      if stripNewline input = [] then none
      else some ((messageText username.toCStr (stripNewline input)).take (bufferSize - 1)) := by
  have hname : strlen username.toCStr < 32 := username.fits
  have hline : (stripNewline input).length < 256 := by
    have hfits : input.bytes.length < 256 := input.fits
    unfold stripNewline
    split
    · rw [List.length_dropLast]
      omega
    · exact hfits
  by_cases hempty : stripNewline input = []
  · rw [senderTurn, if_pos hempty, if_pos hempty]
    rfl
  · have hsize : strlen username.toCStr + (stripNewline input).length + 4 ≤ intMax := by
      change _ ≤ 2147483647
      omega
    rw [senderTurn_eq_some.mpr ⟨hempty, hsize, rfl⟩, if_neg hempty]
    rfl

/-- What is stored for an input: its pieces as `fgets` makes them, but for the empty
lines. -/
theorem senderLoop_stored (username : Username) (stdin : List UInt8) :
    (senderLoop username.toCStr stdin).map (·.stored) =
      ((fgetsLines bufferSize (by decide) stdin).map stripNewline |>.filter (· ≠ [])).map
        fun line => (messageText username.toCStr line).take (bufferSize - 1) := by
  rw [senderLoop, List.map_filterMap]
  induction fgetsLines bufferSize (by decide) stdin with
  | nil => rfl
  | cons input inputs ih =>
    rw [List.filterMap_cons, senderTurn_stored]
    by_cases hempty : stripNewline input = []
    · rw [if_pos hempty, List.map_cons, List.filter_cons_of_neg (by simp [hempty])]
      exact ih
    · rw [if_neg hempty, List.map_cons, List.filter_cons_of_pos (by simp [hempty]), List.map_cons]
      exact congrArg _ ih

/-- Of lines with a newline the text is left. -/
theorem map_stripNewline {inputs : List (CharArray bufferSize)} {lines : List (List UInt8)}
    (h : inputs.map (·.bytes) = lines.map fun line => line ++ [10]) :
    inputs.map stripNewline = lines := by
  have hmap : inputs.map stripNewline = (inputs.map (·.bytes)).map fun bytes =>
      if bytes.getLast? = some 10 then bytes.dropLast else bytes := by
    rw [List.map_map]
    rfl
  rw [hmap, h, List.map_map]
  conv_rhs => rw [← List.map_id lines]
  apply List.map_congr_left
  intro line _
  simp

/-- What is typed is shown: of lines typed into a sender, the receivers show the texts of
those that are not empty, each once and in order, exactly if all of them fit the buffer
together with the name. What follows the buffer is never shown. -/
theorem chat_round_trip_iff (username : Username) {lines : List (List UInt8)}
    (hlines : ∀ line ∈ lines, 10 ∉ line ∧ 0 ∉ line) :
    (∀ call ∈ senderLoop username.toCStr (lines.flatMap fun line => line ++ [10]),
        ∀ behind, printedText (call.data behind) = call.stored) ∧
      ((senderLoop username.toCStr (lines.flatMap fun line => line ++ [10])).map (·.stored) =
          (lines.filter (· ≠ [])).map (messageText username.toCStr) ↔
        ∀ line ∈ lines, strlen username.toCStr + line.length + 4 < bufferSize) := by
  refine ⟨fun call hcall behind => ?_, fun h line hline => ?_, fun hfits => ?_⟩
  · obtain ⟨input, -, hturn⟩ := List.mem_filterMap.mp hcall
    exact printedText_turn hturn behind
  · by_cases hempty : line = []
    · have hname : strlen username.toCStr < 32 := username.fits
      rw [hempty, List.length_nil]
      change _ < 256
      omega
    · have hmem : messageText username.toCStr line ∈
          (lines.filter (· ≠ [])).map (messageText username.toCStr) :=
        List.mem_map_of_mem (List.mem_filter.mpr ⟨hline, by simp [hempty]⟩)
      rw [← h, senderLoop_stored] at hmem
      obtain ⟨piece, -, hpiece⟩ := List.mem_map.mp hmem
      have hlength := congrArg List.length hpiece
      rw [List.length_take, messageText_length, messageText_length] at hlength
      omega
  · have hread : (fgetsLines bufferSize (by decide) (lines.flatMap fun line => line ++ [10])).map
        (·.bytes) = lines.map fun line => line ++ [10] := by
      refine fgetsLines_lines _ fun line hline => ⟨(hlines line hline).1, (hlines line hline).2, ?_⟩
      have := hfits line hline
      omega
    rw [senderLoop_stored, map_stripNewline hread]
    apply List.map_congr_left
    intro line hline
    have hfit := hfits line (List.mem_filter.mp hline).1
    apply List.take_of_length_le
    rw [messageText_length]
    omega

/-- Two lines with an empty one between them. -/
theorem chat_round_trip_two : (senderLoop (nameOf 0).toCStr [104, 105, 10, 10, 121, 10]).map
    (·.stored) = [messageText (nameOf 0).toCStr [104, 105], messageText (nameOf 0).toCStr [121]] := by
  have hlines : ∀ line ∈ ([[104, 105], [], [121]] : List (List UInt8)), 10 ∉ line ∧ 0 ∉ line := by
    decide
  exact (chat_round_trip_iff (nameOf 0) hlines).2.mpr (by decide)

/-- A datagram carries the text of a line, stored as it was sent. -/
def Carries (d : Datagram) (input : CharArray bufferSize) (behind : List UInt8) : Prop :=
  stripNewline input ≠ [] ∧ d.data = datagramData
    (formatLine d.sender.proc.username (stripNewline input)) behind

/-- What runs keep: a datagram was typed, and a printed line is the text of its datagram. -/
structure Typed (moves : List (Move Network ChatEvent)) (s : Network) : Prop where
  sent : ∀ d ∈ s.sent, ∃ m ∈ moves, ∃ input behind,
    m.label = .type d.sender input behind ∧ Carries d input behind
  printed : ∀ line ∈ s.printed, line.datagram ∈ s.sent ∧
    line.text = printedText line.datagram.data

theorem sendLine_carries {w : ChatWindow} {input : CharArray bufferSize} {behind : List UInt8}
    {d : Datagram} (h : sendLine w input behind = some d) : d.sender = w ∧ Carries d input behind := by
  unfold sendLine at h
  dsimp only at h
  obtain ⟨hline, h⟩ := Option.ite_none_left_eq_some.mp h
  obtain ⟨dest, -, rfl⟩ := Option.map_eq_some_iff.mp h
  exact ⟨rfl, hline, rfl⟩

theorem Typed.step {ws : Windows} {moves : List (Move Network ChatEvent)} {s t : Network}
    {e : ChatEvent} (h : Typed moves s) (hs : ChatStep ws s e t) : Typed (moves ++ [⟨s, e, t⟩]) t := by
  have hpast : ∀ d ∈ s.sent, ∃ m ∈ moves ++ [⟨s, e, t⟩], ∃ input behind,
      m.label = .type d.sender input behind ∧ Carries d input behind := by
    intro d hd
    obtain ⟨m, hm, hrest⟩ := h.sent d hd
    exact ⟨m, List.mem_append_left _ hm, hrest⟩
  cases e with
  | type w input behind =>
    obtain ⟨hw, hs⟩ := Option.ite_none_right_eq_some.mp hs
    obtain rfl := Option.some.inj hs
    refine ⟨fun d hd => ?_, fun line hline => ?_⟩
    · rcases List.mem_append.mp hd with hd | hd
      · exact hpast d hd
      · obtain ⟨rfl, hcarries⟩ := sendLine_carries (Option.mem_toList.mp hd)
        exact ⟨_, List.mem_append_right _ (List.mem_singleton_self _), input, behind, rfl, hcarries⟩
    · obtain ⟨hsent, htext⟩ := h.printed line hline
      exact ⟨List.mem_append_left _ hsent, htext⟩
  | arrive d host =>
    obtain ⟨hd, hs⟩ := Option.ite_none_right_eq_some.mp hs
    obtain rfl := Option.some.inj hs
    refine ⟨hpast, fun line hline => ?_⟩
    rcases List.mem_append.mp hline with hline | hline
    · exact h.printed line hline
    · obtain ⟨w, -, rfl⟩ := List.mem_map.mp hline
      exact ⟨hd, rfl⟩

/-- A sender and a receiver on one host, and a line that does not fit: bytes from behind
the buffer are sent with it. -/
def longTalk : List ChatEvent :=
  let behind := List.replicate 64 7
  .type (windowFor 1 3 1) longLine behind ::
    (sendLine (windowFor 1 3 1) longLine behind).toList.map fun d => .arrive d 1

end MeshChat.Chat
