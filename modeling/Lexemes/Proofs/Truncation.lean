import Lexemes.Proofs.Json.Truncation
import Lexemes.Proofs.RoundTrip

namespace Lexemes

open Json

variable {t : Token} {ts : List Token} {s : Settings} {front : String}

theorem notices_span (h : t.Fits) : Notices Span.record.read t.span.toValue := by
  refine notices_record (fills_span h) ?_
  simp only [NoticesFields, List.forall_mem_cons, List.not_mem_nil, false_imp_iff, implies_true,
    and_true]
  refine ⟨?_, ?_⟩
  · rintro field ⟨⟩ given
    exact (notices_natural h.start).map _
  · rintro field ⟨⟩ given
    exact (notices_natural h.stop).map _

theorem notices_token (h : t.Fits) : Notices Token.record.read t.toValue := by
  refine notices_record (fills_token h) ?_
  simp only [NoticesFields, List.forall_mem_cons, List.not_mem_nil, false_imp_iff, implies_true,
    and_true]
  refine ⟨?_, ?_, ?_, ?_, ?_⟩
  · rintro field ⟨⟩ given
    exact (notices_choice _ _).map _
  · rintro field ⟨⟩ given
    exact (notices_optionalString _).map _
  · rintro field ⟨⟩ given
    exact (notices_span h).map _
  · rintro field ⟨⟩ given
    exact (notices_natural h.line).map _
  · rintro field ⟨⟩ given
    exact (notices_natural h.column).map _

theorem starves_tokens (h : ∀ t ∈ ts, t.Fits) {p : List Char}
    (hp : Truncated p ((Value.list (ts.map Token.toValue)).form 0)) :
    (Sequence.read Token.record.read).Starves p :=
  starves_list (fun t ht ↦ ⟨opens_object _, reads_token (h t ht), notices_token (h t ht)⟩) hp

theorem readAll_of_starves {α : Type} {r : Reader α} (h : r.Starves front.toList) :
    ∃ what, r.readAll front =
      .error ⟨.unfinished what, some (.behind front.toUTF8.data.toList)⟩ := by
  obtain ⟨what, h⟩ := h
  refine ⟨what, ?_⟩
  rw [Reader.readAll, h]
  simp only [Stop.toFault, Nat.sub_zero, List.take_length]

theorem prefix_message (what : Unfinished) (p : Option Position) :
    "EOF while parsing ".toList <+: (Fault.message ⟨.unfinished what, p⟩).toList := by
  have hmessage : Fault.message ⟨.unfinished what, p⟩ =
      "EOF while parsing " ++ (what.noun ++ (p.map Position.text).getD "") := String.append_assoc
  rw [hmessage, String.toList_append]
  exact List.prefix_append _ _

theorem truncated_of_prefix {text : String} (hfront : front.toList <+: (text ++ "\n").toList)
    (hfull : front ≠ text ++ "\n") (hline : front ++ "\n" ≠ text ++ "\n") :
    Truncated front.toList text.toList := by
  have hcut : Truncated front.toList (text ++ "\n").toList :=
    truncated_iff_prefix.mpr ⟨hfront, fun h ↦ hfull (String.toList_injective h)⟩
  rw [String.toList_append, truncated_append] at hcut
  rcases hcut with hcut | ⟨q, hq, hend⟩
  · exact hcut
  · rcases truncated_cons.mp hend with rfl | ⟨r, -, hr⟩
    · rw [List.append_nil] at hq
      exact absurd (by rw [String.toList_injective hq]) hline
    · exact absurd hr not_truncated_nil

/-- A dump as JSON that lacks more than its last line break is refused as unfinished. -/
theorem ofJson_truncated_dump (hs : s.format = .json) (h : ∀ t ∈ ts, t.Fits)
    (hfront : front.toList <+: (dump s ts).toList) (hfull : front ≠ dump s ts)
    (hline : front ++ "\n" ≠ dump s ts) :
    ∃ e, Token.ofJson front = .error e ∧ e.category = .unfinished ∧
      "EOF while parsing ".toList <+: e.message.toList := by
  have hshown : ∀ t ∈ ts.filter s.shows, t.Fits := fun t ht ↦ h t (List.mem_of_mem_filter ht)
  rw [dump_json hs] at hfront hfull hline
  have hcut := truncated_of_prefix hfront hfull hline
  rw [Value.pretty, String.toList_ofList] at hcut
  obtain ⟨what, hread⟩ := readAll_of_starves (starves_tokens hshown hcut)
  exact ⟨_, hread, rfl, prefix_message what _⟩

/-- The dump breaks off within the escape of a control character. -/
theorem ofJson_cut_within_escape :
    let front := "[\n  \x7b\n    \"kind\": \"Illegal\",\n    \"text\": \"\\u00"
    let ts : List Token := [⟨.illegal, some "\u0001", ⟨0, 1⟩, 1, 1⟩]
    front.toList <+: (dump { format := .json } ts).toList ∧
      ∃ e, Token.ofJson front = .error e ∧ e.category = .unfinished ∧
        "EOF while parsing ".toList <+: e.message.toList := by
  intro front ts
  have hfront : front.toList <+: (dump { format := .json } ts).toList := by decide +kernel
  exact ⟨hfront,
    ofJson_truncated_dump rfl (by decide) hfront (by decide +kernel) (by decide +kernel)⟩

end Lexemes
