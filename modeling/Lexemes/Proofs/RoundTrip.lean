import Lexemes.Dump
import Lexemes.Proofs.Json.Reads

namespace Lexemes

open Json

/-- 64 bits hold every number of the token. -/
structure Token.Fits (t : Token) : Prop where
  start : t.span.start ≤ Number.greatest
  stop : t.span.stop ≤ Number.greatest
  line : t.line ≤ Number.greatest
  column : t.column ≤ Number.greatest

instance (t : Token) : Decidable t.Fits :=
  decidable_of_iff (t.span.start ≤ Number.greatest ∧ t.span.stop ≤ Number.greatest ∧
      t.line ≤ Number.greatest ∧ t.column ≤ Number.greatest)
    ⟨fun ⟨hstart, hstop, hline, hcolumn⟩ ↦ ⟨hstart, hstop, hline, hcolumn⟩,
      fun h ↦ ⟨h.start, h.stop, h.line, h.column⟩⟩

variable {t : Token} {ts : List Token} {s : Settings}

theorem reads_kind (k : Kind) : Reads Kind.choice.read (.string k.name) k :=
  reads_choice (Kind.ofName?_name k)

theorem fills_span (h : t.Fits) : Fills Span.record {}
    [("start", .natural t.span.start), ("end", .natural t.span.stop)]
    ⟨some t.span.start, some t.span.stop⟩ :=
  .cons rfl rfl ((reads_natural h.start).map _) <|
  .cons rfl rfl ((reads_natural h.stop).map _) <|
  .nil _

theorem reads_span (h : t.Fits) : Reads Span.record.read t.span.toValue t.span :=
  reads_record (fills_span h) rfl

theorem fills_token (h : t.Fits) : Fills Token.record {}
    [("kind", .string t.kind.name), ("text", (t.text.map Value.string).getD .null),
      ("span", t.span.toValue), ("line", .natural t.line), ("column", .natural t.column)]
    ⟨some t.kind, some t.text, some t.span, some t.line, some t.column⟩ :=
  .cons rfl rfl ((reads_kind t.kind).map _) <|
  .cons rfl rfl ((reads_optionalString t.text).map _) <|
  .cons rfl rfl ((reads_span h).map _) <|
  .cons rfl rfl ((reads_natural h.line).map _) <|
  .cons rfl rfl ((reads_natural h.column).map _) <|
  .nil _

theorem reads_token (h : t.Fits) : Reads Token.record.read t.toValue t :=
  reads_record (fills_token h) rfl

theorem reads_tokens (h : ∀ t ∈ ts, t.Fits) :
    Reads (Sequence.read Token.record.read) (.list (ts.map Token.toValue)) ts :=
  reads_list fun t ht ↦ ⟨opens_object _, reads_token (h t ht)⟩

theorem readAll_pretty {α : Type} {r : Reader α} {v : Value} {a : α} (h : Reads r v a) :
    r.readAll (v.pretty ++ "\n") = .ok a := by
  have hend : Closed ['\n'] := closed_cons (by decide)
  have htext : (v.pretty ++ "\n").toList = v.form 0 ++ ['\n'] := by
    rw [String.toList_append, Value.pretty, String.toList_ofList]
    rfl
  rw [Reader.readAll, htext, h.run hend]
  rfl

theorem filter_shows :
    ts.filter s.shows = if s.skipComments then ts.filter (·.kind != .comment) else ts := by
  cases hs : s.skipComments with
  | false => simp [Settings.shows, hs]
  | true => exact List.filter_congr fun t _ ↦ by simp [Settings.shows, hs, bne]

theorem dump_json (hs : s.format = .json) :
    dump s ts = (Value.list ((ts.filter s.shows).map Token.toValue)).pretty ++ "\n" := by
  rw [dump, hs]

theorem ofJson_dump (hs : s.format = .json) (h : ∀ t ∈ ts, t.Fits) :
    Token.ofJson (dump s ts) =
      .ok (if s.skipComments then ts.filter (·.kind != .comment) else ts) := by
  have hshown : ∀ t ∈ ts.filter s.shows, t.Fits := fun t ht ↦ h t (List.mem_of_mem_filter ht)
  rw [dump_json hs, Token.ofJson, readAll_pretty (reads_tokens hshown), filter_shows]

theorem ofJson_dump_odd_texts :
    Token.ofJson (dump ⟨.json, true, true, false⟩
      [⟨.character, some "\"\\/\u0000\n\u001f\u007fé😀", ⟨18446744073709551615, 0⟩, 0, 10⟩,
        ⟨.comment, some "// not shown", ⟨3, 15⟩, 1, 4⟩,
        ⟨.string, some "", ⟨15, 15⟩, 1, 16⟩,
        ⟨.endOfInput, none, ⟨15, 15⟩, 18446744073709551615, 1⟩]) =
      .ok [⟨.character, some "\"\\/\u0000\n\u001f\u007fé😀", ⟨18446744073709551615, 0⟩, 0, 10⟩,
        ⟨.string, some "", ⟨15, 15⟩, 1, 16⟩,
        ⟨.endOfInput, none, ⟨15, 15⟩, 18446744073709551615, 1⟩] :=
  ofJson_dump rfl (by decide)

end Lexemes
