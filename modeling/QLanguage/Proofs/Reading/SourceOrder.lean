import QLanguage.Proofs.Cutting.Tiling
import QLanguage.Proofs.Reading.FirstFault

/-!
# Diagnostics come in source order

Every diagnostic of a module points at a token of the source, and only the last one may instead
point behind all of them, at the end of the source. `PointAlong` says so of a list of diagnostics
and the tokens in their order, and the segments of a source give it from the front: the diagnostic
of a segment points into that segment, and the others point behind it. Since the tokens tile the
source, the diagnostics then start one behind the other.
-/

namespace QLanguage

open Grammar

/-! ## Where diagnostics point -/

/-- The diagnostic points at a token, which is the one that it found if it found any. -/
structure Diagnostic.PointsAt (d : Diagnostic) (t : Token) : Prop where
  /-- It starts where the token starts. -/
  start : d.start = some t.span.start
  /-- It ends where the token ends. -/
  stop : d.stop = some t.span.stop
  /-- The token that was found is this one. -/
  found : ∀ t', d.found? = some t' → t' = t
  /-- It is not that the source ends too early. -/
  notEnd : ∀ offset, d ≠ .endOfInput offset

/-- The diagnostic is caused by the end of the source, and points at it. -/
structure Diagnostic.PointsAtEnd (source : String) (d : Diagnostic) : Prop where
  /-- It starts at the end of the source. -/
  start : d.start = some (source.length : Int)
  /-- It ends there too. -/
  stop : d.stop = some (source.length : Int)
  /-- No token was found. -/
  found : d.found? = none

/-- Diagnostics that point at tokens in the order in which these stand. The last one may point at
the end of the source. -/
inductive PointAlong (source : String) : List Token → List Diagnostic → Prop where
  /-- No diagnostics. -/
  | nil (ts : List Token) : PointAlong source ts []
  /-- A diagnostic that points at the end. -/
  | atEnd (ts : List Token) {d : Diagnostic} (points : d.PointsAtEnd source) :
      PointAlong source ts [d]
  /-- A diagnostic that points at a token, and others that point behind that token. -/
  | cons (before : List Token) {t : Token} {ts : List Token} {d : Diagnostic}
      {ds : List Diagnostic} (points : d.PointsAt t) (more : PointAlong source ts ds) :
      PointAlong source (before ++ t :: ts) (d :: ds)

/-- A diagnostic that found a token points at it. -/
theorem Diagnostic.pointsAt_of_found? {d : Diagnostic} {t : Token} (h : d.found? = some t) :
    d.PointsAt t := by
  have hfound : ∀ t', d.found? = some t' → t' = t := by
    intro t' ht'
    exact Option.some.inj (ht'.symm.trans h)
  have hstop : d.stop = some t.span.stop := by
    cases d <;> cases h <;> rfl
  refine ⟨Diagnostic.start_of_found? h, hstop, hfound, ?_⟩
  rintro offset rfl
  cases h

/-- A value that is missing at a token is missed at it. -/
theorem Diagnostic.pointsAt_missingValue (name : String) (t : Token)
    (source sourceName : Option String) :
    (Diagnostic.missingValue name t.span source sourceName).PointsAt t := by
  refine ⟨rfl, rfl, fun t' h => ?_, fun offset h => ?_⟩ <;> cases h

namespace PointAlong

variable {source : String} {ts : List Token} {ds : List Diagnostic}

/-- Tokens in front are not pointed at. -/
theorem append_left (h : PointAlong source ts ds) (before : List Token) :
    PointAlong source (before ++ ts) ds := by
  cases h with
  | nil => exact .nil _
  | atEnd _ points => exact .atEnd _ points
  | cons before' points more =>
    rw [← List.append_assoc]
    exact .cons (before ++ before') points more

/-- A diagnostic points at one of the tokens, or it is the last one and points at the end. -/
theorem of_append {before after : List Diagnostic} {d : Diagnostic}
    (h : PointAlong source ts (before ++ d :: after)) :
    (∃ t ∈ ts, d.PointsAt t) ∨ d.PointsAtEnd source ∧ after = [] := by
  induction before generalizing ts with
  | nil =>
    rw [List.nil_append] at h
    cases h with
    | atEnd _ points => exact .inr ⟨points, rfl⟩
    | cons front points more =>
      exact .inl ⟨_, List.mem_append_right front List.mem_cons_self, points⟩
  | cons first before ih =>
    rw [List.cons_append] at h
    generalize hrest : before ++ d :: after = rest at h
    cases h with
    | atEnd _ points => exact absurd hrest (List.append_ne_nil_of_right_ne_nil _ (by simp))
    | cons front points more =>
      subst hrest
      rcases ih more with ⟨t, ht, hpoints⟩ | hend
      · exact .inl ⟨t, List.mem_append_right front (List.mem_cons_of_mem _ ht), hpoints⟩
      · exact .inr hend

/-- Where the tokens start one behind the other in the source, so do the diagnostics. -/
theorem pairwise_start (h : PointAlong source ts ds)
    (hordered : ts.Pairwise fun t t' => t.span.start < t'.span.start)
    (hwithin : ∀ t ∈ ts, t.span.start < source.length) :
    ds.Pairwise fun d d' => ∃ i j, d.start = some i ∧ d'.start = some j ∧ i < j := by
  induction h with
  | nil => exact .nil
  | atEnd _ points => exact List.pairwise_singleton _ _
  | @cons before t ts d ds points more ih =>
    obtain ⟨-, hordered, -⟩ := List.pairwise_append.1 hordered
    obtain ⟨hbehind, hordered⟩ := List.pairwise_cons.1 hordered
    obtain ⟨-, hwithin⟩ := List.forall_mem_append.1 hwithin
    obtain ⟨hlength, hwithin⟩ := List.forall_mem_cons.1 hwithin
    refine List.pairwise_cons.2 ⟨fun d' hd' => ?_, ih hordered hwithin⟩
    -- Behind the token stand the tokens that the others point at, and the end of the source.
    obtain ⟨front, back, rfl⟩ := List.append_of_mem hd'
    rcases more.of_append with ⟨t', ht', hpoints⟩ | ⟨hpoints, -⟩
    · exact ⟨_, _, points.start, hpoints.start, hbehind t' ht'⟩
    · exact ⟨_, _, points.start, hpoints.start, hlength⟩

end PointAlong

/-! ## The diagnostics of segments -/

variable {sourceName source : String}

/-- The diagnostic of a segment points into it, or at the end of the source. -/
theorem Segment.pointAlong {ts following : List Token} {d : Diagnostic} {entries : List Entry}
    (h : Segment sourceName source ts (.error d) following)
    (hmore : Segments sourceName source following entries)
    (halong : PointAlong source following (Parsed.ofEntries sourceName entries).diagnostics) :
    PointAlong source (ts ++ following)
      (d :: (Parsed.ofEntries sourceName entries).diagnostics) := by
  cases h with
  | @head t skipped _ hhead hskipped =>
    exact .cons [] (Diagnostic.pointsAt_of_found? rfl) (halong.append_left skipped)
  | @mark head t name _ hname hmark =>
    exact .cons [head] (Diagnostic.pointsAt_of_found? rfl) halong
  | name hname =>
    obtain rfl := hmore.entries_eq_nil
    exact .atEnd _ ⟨rfl, rfl, rfl⟩
  | @value head mark t name before skipped _ _ hname hmark hbreaks hskipped =>
    have hpoints : d.PointsAt t := by
      have hreported := hbreaks.reported
      split at hreported
      · rw [hreported]
        exact Diagnostic.pointsAt_missingValue ..
      · exact Diagnostic.pointsAt_of_found? hreported
    have hts : head :: mark :: (before ++ t :: skipped) ++ following =
        (head :: mark :: before) ++ t :: (skipped ++ following) := by simp
    rw [hts]
    exact .cons _ hpoints (halong.append_left skipped)
  | @valueEnd head mark name inside _ hname hmark hbreaks =>
    obtain rfl := hmore.entries_eq_nil
    refine .atEnd _ ?_
    have hreported := hbreaks.reported
    split at hreported <;> rw [hreported] <;> exact ⟨rfl, rfl, rfl⟩

/-- The diagnostics of segments point along the tokens. -/
theorem Segments.pointAlong {ts : List Token} {entries : List Entry}
    (h : Segments sourceName source ts entries) :
    PointAlong source ts (Parsed.ofEntries sourceName entries).diagnostics := by
  induction h with
  | nil => exact .nil []
  | @cons ts following entry entries first more ih =>
    cases entry with
    | ok declaration => exact ih.append_left ts
    | error d => exact first.pointAlong more ih

/-! ## The diagnostics of a source -/

/-- The tokens of a source start one behind the other, inside it. -/
theorem pairwise_start_of_tokens {ts : List Token} (htokens : tokens source = .ok ts) :
    (ts.Pairwise fun t t' => t.span.start < t'.span.start) ∧
      ∀ t ∈ ts, t.span.start < source.length := by
  have htiles : Tiles source 0 ts := tiles_lexemesFrom List.drop_zero (tokens_eq_ok_iff.mp htokens)
  have hwithin : ∀ t ∈ ts, t.span.start < t.span.stop ∧ t.span.stop ≤ source.length :=
    fun t ht => (htiles.longest t ht).within.2
  refine ⟨htiles.ordered.imp_of_mem fun {t t'} ht _ hle => ?_, fun t ht => ?_⟩
  · exact lt_of_lt_of_le (hwithin t ht).1 hle
  · exact lt_of_lt_of_le (hwithin t ht).1 (hwithin t ht).2

/-- The diagnostics of a source start one behind the other. Each of them points at a token of the
source, the one that it found if it found one, unless it is caused by the end of the source; then it
points there, and it is the last one. -/
theorem diagnostics_in_source_order (name : String) {source : String} {ts : List Token}
    (htokens : tokens source = .ok ts) :
    ∃ parsed,
      (∀ depth, (parseModule depth name source = .ok parsed ∨
          parseModule depth name source = .error .tooDeep) ∧
        (ts.length ≤ depth → parseModule depth name source = .ok parsed)) ∧
      (parsed.diagnostics.Pairwise fun d d' =>
        ∃ i j, d.start = some i ∧ d'.start = some j ∧ i < j) ∧
      (∀ d ∈ parsed.diagnostics, (∃ t ∈ ts, d.PointsAt t) ∨ d.PointsAtEnd source) ∧
      ∀ before d after, parsed.diagnostics = before ++ d :: after → d.PointsAtEnd source →
        after = [] := by
  obtain ⟨entries, hsegments, hread⟩ := exists_segments name htokens
  obtain ⟨hordered, hwithin⟩ := pairwise_start_of_tokens htokens
  have halong := hsegments.pointAlong
  refine ⟨Parsed.ofEntries name entries,
    fun depth => ⟨parseModule_ok_or_tooDeep hread depth, hread depth⟩,
    halong.pairwise_start hordered hwithin, fun d hd => ?_, fun before d after hsplit hend => ?_⟩
  · obtain ⟨before, after, hsplit⟩ := List.append_of_mem hd
    rw [hsplit] at halong
    exact halong.of_append.imp_right And.left
  · rw [hsplit] at halong
    rcases halong.of_append with ⟨t, ht, hpoints⟩ | ⟨-, hlast⟩
    · -- The token would start at the end of the source.
      have hstart := Option.some.inj (hpoints.start.symm.trans hend.start)
      exact absurd (hwithin t ht) (by omega)
    · exact hlast

/-- A call without an argument behind its parenthesis, a name with another one behind it and a
declaration without a value are reported in this order, the last at the end of the source. -/
theorem diagnostics_in_source_order_missing_value :
    ∃ ts parsed before d, tokens "f = g(,) x = \"a\" y z w =" = .ok ts ∧
      parseModule 13 "m" "f = g(,) x = \"a\" y z w =" = .ok parsed ∧
      parsed.diagnostics = before ++ [d] ∧ before.length = 2 ∧
      d.PointsAtEnd "f = g(,) x = \"a\" y z w =" ∧
      (∀ d' ∈ before, ∃ t ∈ ts, d'.PointsAt t) ∧
      parsed.diagnostics.Pairwise fun d d' =>
        ∃ i j, d.start = some i ∧ d'.start = some j ∧ i < j := by
  obtain ⟨ts, htokens, -⟩ :
      ∃ ts, tokens "f = g(,) x = \"a\" y z w =" = .ok ts ∧ ts.length = 13 :=
    Step.exists_ok_of_map (by decide +kernel)
  have hparse : parseModule 13 "m" "f = g(,) x = \"a\" y z w =" = .ok ⟨⟨"m", [⟨"x", .string "a"⟩]⟩,
      [.expectedExpression ⟨.punct .comma, ⟨6, 7⟩⟩,
        .unexpected (.punct .equal) ⟨.identifier "z", ⟨19, 20⟩⟩,
        .missingValue "w" ⟨24, 24⟩ (some "f = g(,) x = \"a\" y z w =") (some "m")]⟩ := by
    decide +kernel
  obtain ⟨parsed, hread, hordered, hpoints, hlast⟩ := diagnostics_in_source_order "m" htokens
  rcases (hread 13).1 with hok | hdeep
  · obtain rfl := Except.ok.inj (hparse.symm.trans hok)
    refine ⟨ts, _, [_, _], _, htokens, hparse, rfl, rfl, ⟨rfl, rfl, rfl⟩, fun d' hd' => ?_,
      hordered⟩
    -- Only the last of the three is caused by the end.
    refine (hpoints d' (List.mem_append_left [_] hd')).resolve_right fun hend => ?_
    obtain ⟨front, back, hsplit⟩ := List.append_of_mem hd'
    have hnil := hlast front d' (back ++ [_])
      (by rw [← List.cons_append, ← List.append_assoc, ← hsplit]; rfl) hend
    exact List.append_ne_nil_of_right_ne_nil back (List.cons_ne_nil _ []) hnil
  · rw [hparse] at hdeep
    cases hdeep

end QLanguage
