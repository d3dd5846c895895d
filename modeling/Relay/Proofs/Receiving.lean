/-
# Receiving a response

A response is the same however it arrives. Its body may be cut into chunks at any place: it is
read whole if it is within the limit as a whole, and else given up, although the limit is checked
chunk by chunk. Its headers may repeat a name with others in between: the values of one name are
told together, in order of arrival, and those that are no plain text are passed over. So two
responses with the same status, the same bytes and under every name the same values are read
alike.

Key definitions: `Wire.Visible`, `Wire.values`, `Wire.joined?`.
Key theorems: `readable?_eq_some_iff`, `find?_readHeaders`, `readHeaders_congr`, `reads_alike`.
-/
import Relay.Proofs.FormAudit
import Relay.Proofs.Mirroring
import Relay.Proofs.Utf8

namespace Relay.Wire

open Relay.Text.Utf8 (Bytes)

/-! ### Readable values -/

/-- Visible ASCII characters, spaces and tabs only. -/
def Visible (value : Bytes) : Prop := ∀ b ∈ value, b = 9 ∨ 0x20 ≤ b ∧ b < 0x7F

theorem visible_iff {value : Bytes} :
    (value.all fun b => b = 9 || (0x20 ≤ b && b < 0x7F)) = true ↔ Visible value := by
  simp [Visible]

/-- A visible value is the text of its bytes. -/
theorem encode_of_visible {value : Bytes} (h : Visible value) :
    Text.Utf8.encode (String.ofList (value.map fun b => Char.ofNat b.toNat)) = value := by
  unfold Text.Utf8.encode
  rw [String.toList_ofList]
  induction value with
  | nil => rfl
  | cons b value ih =>
    have hlt : b.toNat < 128 := by
      rcases h b List.mem_cons_self with rfl | ⟨-, hlt⟩
      · decide
      · exact Nat.lt_trans (UInt8.lt_iff_toNat_lt.mp hlt) (by decide)
    have hchar : (Char.ofNat b.toNat).toNat = b.toNat := by
      unfold Char.ofNat
      rw [dif_pos (.inl (by omega))]
      rfl
    have hbyte : String.utf8EncodeChar (Char.ofNat b.toNat) = [b] := by
      rw [Text.Utf8.utf8EncodeChar_of_lt (by omega), hchar, UInt8.ofNat_toNat]
    rw [List.map_cons, List.flatMap_cons, ih fun c hc => h c (List.mem_cons_of_mem _ hc), hbyte,
      List.singleton_append]

/-- **A value is readable if it is visible**, and then it is read as it was sent. -/
theorem readable?_eq_some_iff {value : Bytes} {s : String} :
    readable? value = some s ↔ Visible value ∧ Text.Utf8.encode s = value := by
  unfold readable?
  by_cases hvisible : Visible value
  · rw [if_pos (visible_iff.mpr hvisible), Option.some.injEq]
    refine ⟨?_, fun h => ?_⟩
    · rintro rfl
      exact ⟨hvisible, encode_of_visible hvisible⟩
    · have hdecoded := Text.Utf8.decode_encode s
      rw [h.2, ← encode_of_visible hvisible, Text.Utf8.decode_encode] at hdecoded
      exact Except.ok.inj hdecoded
  · rw [if_neg (mt visible_iff.mp hvisible)]
    simp [hvisible]

/-! ### Headers by name -/

/-- The readable values that came under a name, in order of arrival. -/
def values (headers : List (String × Bytes)) (name : String) : List String :=
  (headers.filter fun h => h.1 = name).filterMap fun h => readable? h.2

/-- The values of a name in one text; none if there is none. -/
def joined? (vs : List String) : Option String :=
  if vs = [] then none else some (Text.joinText ", " vs)

theorem joined?_singleton (value : String) : joined? [value] = some value := by
  simp [joined?, Text.joinText, Text.join]

theorem joinText_append_singleton {vs : List String} (h : vs ≠ []) (value : String) :
    Text.joinText ", " (vs ++ [value]) = Text.joinText ", " vs ++ ", " ++ value := by
  have hchars : vs.map String.toList ≠ [] := by simpa using h
  apply String.toList_inj.mp
  simp only [Text.joinText, List.map_append, List.map_cons, List.map_nil,
    Text.join_append_singleton _ _ hchars, String.toList_ofList, String.toList_append]

/-- Enters a header if its value is readable. -/
def readHeader (t : Table String) (h : String × Bytes) : Table String :=
  match readable? h.2 with
  | some value => addHeader t h.1 value
  | none => t

theorem readHeaders_eq (headers : List (String × Bytes)) :
    readHeaders headers = headers.foldl readHeader [] := rfl

variable {t : Table String} {vs : List String} {headers headers' : List (String × Bytes)}
  {name : String}

theorem values_append (headers headers' : List (String × Bytes)) (name : String) :
    values (headers ++ headers') name = values headers name ++ values headers' name := by
  rw [values, List.filter_append, List.filterMap_append, values, values]

theorem values_singleton_of_ne {h : String × Bytes} (hname : h.1 ≠ name) :
    values [h] name = [] := by
  simp [values, hname]

theorem values_singleton (h : String × Bytes) : values [h] h.1 = (readable? h.2).toList := by
  cases hread : readable? h.2 with
  | none => simp [values, hread]
  | some value => simp [values, hread]

/-- A value is told behind those that its name has. -/
theorem find?_addHeader (hvs : t.find? name = joined? vs) (value : String) :
    (addHeader t name value).find? name = joined? (vs ++ [value]) := by
  unfold addHeader
  rw [Table.find?_insert_self, hvs]
  by_cases hnone : vs = []
  · rw [hnone, List.nil_append, joined?_singleton]
    rfl
  · have hsome : vs ++ [value] ≠ [] := List.append_ne_nil_of_left_ne_nil hnone _
    rw [joined?, if_neg hnone, joined?, if_neg hsome, joinText_append_singleton hnone]

/-- **One header.** Under each name its values are told, of this header too. -/
theorem find?_readHeader (hvs : t.find? name = joined? vs) (h : String × Bytes) :
    (readHeader t h).find? name = joined? (vs ++ values [h] name) := by
  unfold readHeader
  by_cases hname : h.1 = name
  · subst hname
    rw [values_singleton]
    cases readable? h.2 with
    | none => exact hvs.trans (congrArg joined? (List.append_nil vs).symm)
    | some value => exact find?_addHeader hvs value
  · rw [values_singleton_of_ne hname, List.append_nil]
    cases readable? h.2 with
    | none => exact hvs
    | some value => exact (Table.find?_insert_of_ne t _ (Ne.symm hname)).trans hvs

/-- **Any number of headers.** Their values are told behind those that were there. -/
theorem find?_foldl_readHeader (headers : List (String × Bytes))
    (hvs : t.find? name = joined? vs) :
    (headers.foldl readHeader t).find? name = joined? (vs ++ values headers name) := by
  -- Of any table at the start: the values that it tells are the accumulator of the joining.
  induction headers generalizing t vs with
  | nil => exact hvs.trans (congrArg joined? (List.append_nil vs).symm)
  | cons h headers ih =>
    have hsplit : values (h :: headers) name = values [h] name ++ values headers name :=
      values_append [h] headers name
    rw [List.foldl_cons, ih (find?_readHeader hvs h), hsplit, List.append_assoc]

/-- **Under each name stand its readable values**, joined in order of arrival. -/
theorem find?_readHeaders (headers : List (String × Bytes)) (name : String) :
    (readHeaders headers).find? name = joined? (values headers name) := by
  have hstart : Table.find? [] name = joined? [] := rfl
  rw [readHeaders_eq, find?_foldl_readHeader headers hstart, List.nil_append]

theorem ascending_foldl_readHeader (headers : List (String × Bytes)) (h : t.Ascending) :
    (headers.foldl readHeader t).Ascending := by
  induction headers generalizing t with
  | nil => exact h
  | cons header headers ih =>
    refine ih ?_
    unfold readHeader
    cases readable? header.2 with
    | none => exact h
    | some value => exact Table.ascending_insert h _ _

/-- Headers with the same values under every name are read alike, whatever their order. -/
theorem readHeaders_congr (h : ∀ name, values headers name = values headers' name) :
    readHeaders headers = readHeaders headers' := by
  refine Table.eq_of_find?_eq (ascending_foldl_readHeader headers .nil)
    (ascending_foldl_readHeader headers' .nil) fun name => ?_
  calc (readHeaders headers).find? name
      = joined? (values headers name) := find?_readHeaders headers name
    _ = joined? (values headers' name) := by rw [h name]
    _ = (readHeaders headers').find? name := (find?_readHeaders headers' name).symm

/-! ### Responses -/

/-- **Reading does not depend on how a response arrives.** One that ends is read whole if its
body is within the limit, with the values of each name joined, and else given up, however its
body was cut; and two that say the same are read alike. -/
theorem reads_alike (a : Incoming) (hends : a.ending = .complete) (body : Bytes)
    (hcut : a.chunks.flatten = body) (limit : Nat) (timeout : Span) :
    (body.length ≤ limit → ∃ reply, a.read limit timeout = .ok reply ∧
      reply.status = a.status ∧ reply.body = body ∧
      ∀ name, reply.headers.find? name = joined? (values a.headers name)) ∧
    (limit < body.length → a.read limit timeout = .error (.tooLarge limit)) ∧
    (∀ value s, readable? value = some s ↔ Visible value ∧ Text.Utf8.encode s = value) ∧
    ∀ b : Incoming, b.ending = .complete → b.status = a.status → b.chunks.flatten = body →
      (∀ name, values b.headers name = values a.headers name) →
      b.read limit timeout = a.read limit timeout := by
  subst hcut
  refine ⟨fun hwithin => ?_, fun hbeyond => ?_, fun _ _ => readable?_eq_some_iff,
    fun b hbends hstatus hbody hvalues => ?_⟩
  · have hread : a.read limit timeout = .ok a.reply := by
      rw [Incoming.read_of_complete hends]
      exact if_pos hwithin
    exact ⟨a.reply, hread, rfl, rfl, find?_readHeaders a.headers⟩
  · rw [Incoming.read_of_complete hends]
    exact if_neg (Nat.not_le.mpr hbeyond)
  · have hsize : b.size = a.size := congrArg List.length hbody
    have hreply : b.reply = a.reply := by
      rw [Incoming.reply, Incoming.reply, hstatus, hbody, readHeaders_congr hvalues]
    rw [Incoming.read_of_complete hbends, Incoming.read_of_complete hends, hsize, hreply]

/-- Five bytes in three chunks, with a name that repeats and with values that are no text. -/
def pieced : Incoming :=
  { status := 200
    headers := [("via", [97]), ("x", [255]), ("age", [49]), ("via", [200]), ("via", [98])]
    chunks := [[104, 101], [], [108, 108, 111]] }

/-- The same in one chunk, without what cannot be read and in another order. -/
def unpieced : Incoming :=
  { status := 200
    headers := [("age", [49]), ("via", [97]), ("via", [98])]
    chunks := [[104, 101, 108, 108, 111]] }

/-- With room for five bytes both are read, and read alike; with room for four they are not. -/
theorem reads_alike_pieced :
    (pieced.ending = .complete ∧ pieced.chunks.flatten = [104, 101, 108, 108, 111]) ∧
    (∃ reply, pieced.read 5 ⟨0⟩ = .ok reply ∧ reply.body = [104, 101, 108, 108, 111] ∧
      reply.headers.find? "via" = some "a, b" ∧ reply.headers.find? "x" = none) ∧
    unpieced.read 5 ⟨0⟩ = pieced.read 5 ⟨0⟩ ∧
    pieced.read 4 ⟨0⟩ = .error (.tooLarge 4) := by
  obtain ⟨hwithin, -, -, halike⟩ :=
    reads_alike pieced rfl [104, 101, 108, 108, 111] rfl 5 ⟨0⟩
  obtain ⟨-, hbeyond, -⟩ := reads_alike pieced rfl [104, 101, 108, 108, 111] rfl 4 ⟨0⟩
  have hvia : joined? (values pieced.headers "via") = some "a, b" := by decide +kernel
  have hx : joined? (values pieced.headers "x") = none := by decide +kernel
  have hvalues (name : String) : values unpieced.headers name = values pieced.headers name := by
    -- The names that are there, each on its own, and then all others.
    by_cases hvia : "via" = name
    · subst hvia
      decide +kernel
    · by_cases hage : "age" = name
      · subst hage
        decide +kernel
      · by_cases hx : "x" = name
        · subst hx
          decide +kernel
        · simp [values, unpieced, pieced, hvia, hage, hx]
  obtain ⟨reply, hread, -, hbody, hheaders⟩ := hwithin (by decide)
  exact ⟨⟨rfl, rfl⟩, ⟨reply, hread, hbody, (hheaders "via").trans hvia, (hheaders "x").trans hx⟩,
    halike unpieced rfl rfl rfl hvalues, hbeyond (by decide)⟩

end Relay.Wire
