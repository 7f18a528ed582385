import OpenCmw.UriObject

/-!
# Assigning URIs

After `a = b` every accessor of `a` should answer like the same accessor of
`b`, and every view of `a` should lie in `a`'s own text. The components and
the query map are carried over whatever was read before. The parts of the
authority are not: their views are only assigned if the flag of `b` is set,
and `parseAuthority` never sets it for an authority that is not empty. So the
views that an earlier read left in `a` stay, point into what is now another
text or no text at all, and come up wherever the authority of `b` lacks the
part (`assign_iff`).
-/

namespace OpenCmw

namespace UriObject

variable {check : UriCheck}

/-- Every view that is not empty lies in the object's own text. -/
def AllInside (u : UriObject check) : Prop :=
  (∀ c, u.Inside (u.view c)) ∧ ∀ p, u.Inside (u.part p)

/-- `u'` is `u` after some calls of accessors. -/
def Reads : UriObject check → UriObject check → Prop :=
  Relation.ReflTransGen fun u u' => ∃ x r, u.call x = some (r, u')

/-! ## Calls keep the views inside -/

/-- What assignment and accessors keep even where a part is stale. -/
structure Intact (u : UriObject check) : Prop where
  parsed : u.Parsed
  flag : u.parsedAuthority = true → (u.view .authority).span.size = 0

namespace Intact

variable {u : UriObject check}

theorem parseAuthority (h : u.Intact) : u.parseAuthority.Intact := by
  unfold UriObject.parseAuthority
  dsimp only
  split_ifs with hskip
  · refine ⟨h.parsed, fun _ => ?_⟩
    simp only [Bool.or_eq_true, beq_iff_eq] at hskip
    exact hskip.elim h.flag id
  · exact ⟨h.parsed, h.flag⟩

theorem allInside_parseAuthority (h : u.Intact) (hinside : u.AllInside) :
    u.parseAuthority.AllInside := by
  obtain ⟨hstr, hbuffer, hview, -⟩ := u.parseAuthority_frame
  have hsame {v : View} (hv : u.Inside v) : u.parseAuthority.Inside v := by
    rw [Inside, hstr, hbuffer]
    exact hv
  refine ⟨fun c => hsame (hview ▸ hinside.1 c), fun p => hsame ?_⟩
  rw [part_parseAuthority h.parsed h.flag]
  split_ifs
  · exact hinside.2 p
  · cases authoritySpan u.authorityText p with
    | none => exact hinside.2 p
    | some s => exact h.parsed.inside_found s

theorem allInside_of_reads {u' : UriObject check} (h : u.Intact) (hinside : u.AllInside)
    (hreads : Reads u u') : u'.Intact ∧ u'.AllInside := by
  induction hreads with
  | refl => exact ⟨h, hinside⟩
  | tail _ hcall ih =>
    obtain ⟨x, r, hcall⟩ := hcall
    obtain ⟨h, hinside⟩ := ih
    rcases call_cases hcall with rfl | rfl | rfl
    · exact ⟨h, hinside⟩
    · exact ⟨h.parseAuthority, h.allInside_parseAuthority hinside⟩
    · rw [queryParamMap_frame]
      exact ⟨⟨h.parsed, h.flag⟩, hinside⟩

end Intact

/-! ## The object after an assignment -/

section Assign

variable {b : UriObject check} (a : UriObject check) (buffer : Nat)

theorem Used.intact_assign (hb : b.Used) : (a.assign b buffer).Intact :=
  ⟨hb.parsed.assign a buffer, fun hflag => by rw [span_assign]; exact hb.flag hflag⟩

theorem authorityText_assign : (a.assign b buffer).authorityText = b.authorityText := by
  rw [authorityText, authorityText, span_assign]
  rfl

/-- The components are carried over. -/
theorem Used.answer_view_assign (hb : b.Used) (c : Component) :
    (a.assign b buffer).answer (componentAccessor c) = b.answer (componentAccessor c) := by
  rw [(hb.parsed.assign a buffer).answer_view, hb.parsed.answer_view, span_assign]
  rfl

/-- So is the query map. -/
theorem Used.queryParamMap_assign (hb : b.Used) :
    (a.assign b buffer).queryParamMap.1 = b.queryParamMap.1 := by
  have hqry : ((a.assign b buffer).view .query).span.text (a.assign b buffer).str =
      (b.view .query).span.text b.str := by
    rw [span_assign]
    rfl
  have hmap : (a.assign b buffer).queryMap = b.queryMap := by
    simp only [assign]
    split_ifs with hsize
    · exact (hb.params hsize).symm
    · rfl
  unfold UriObject.queryParamMap
  dsimp only
  rw [hqry, hmap]
  split_ifs
  · rfl
  · cases checked check isQueryChar _ _ <;> rfl

variable {p : AuthorityPart}

/-- A part that the authority has is found again. -/
theorem Used.answer_part_assign (hb : b.Used) (hp : b.Defines p) :
    (a.assign b buffer).answer (partAccessor p) = b.answer (partAccessor p) := by
  have hintact := hb.intact_assign a buffer
  obtain ⟨hne, hsome⟩ := hp
  obtain ⟨s, hs⟩ := Option.isSome_iff_exists.mp hsome
  rw [hb.answer_part, UriObject.answer_part, text_parseAuthority,
    part_parseAuthority hintact.parsed hintact.flag, authorityText_assign, if_neg hne, hs,
    Option.elim_some,
    text_of_inside (hintact.parsed.inside_found s), text_found, authorityText_assign, partText,
    if_neg hne, hs]
  rfl

theorem not_isSome_of_not_defines (hp : ¬b.Defines p)
    (hne : b.authorityText ≠ []) : authoritySpan b.authorityText p = none :=
  Option.not_isSome_iff_eq_none.mp fun hsome => hp ⟨hne, hsome⟩

/-- One that it lacks is whatever its view was. -/
theorem Used.text_part_assign (hb : b.Used) (hp : ¬b.Defines p) :
    (a.assign b buffer).answer (partAccessor p) =
      ((a.assign b buffer).text ((a.assign b buffer).part p)).bind (readPart p) ∧
    b.answer (partAccessor p) = readPart p [] := by
  have hintact := hb.intact_assign a buffer
  constructor
  · rw [UriObject.answer_part, text_parseAuthority,
      part_parseAuthority hintact.parsed hintact.flag, authorityText_assign]
    split_ifs with hnil
    · rfl
    · rw [not_isSome_of_not_defines hp hnil]
      rfl
  · rw [hb.answer_part, partText]
    split_ifs with hnil
    · rfl
    · rw [not_isSome_of_not_defines hp hnil]
      rfl

theorem answer_assign_of_parts (hb : b.Used)
    (hparts : ∀ p, (a.assign b buffer).answer (partAccessor p) = b.answer (partAccessor p))
    (x : Accessor) : (a.assign b buffer).answer x = b.answer x := by
  cases x with
  | user => exact hparts .userName
  | password => exact hparts .pwd
  | hostName => exact hparts .hostName
  | port => exact hparts .port
  | queryParamMap =>
    simp only [answer, call, Option.map_some]
    rw [hb.queryParamMap_assign]
  | scheme => exact hb.answer_view_assign a buffer .scheme
  | authority => exact hb.answer_view_assign a buffer .authority
  | path => exact hb.answer_view_assign a buffer .path
  | queryParam => exact hb.answer_view_assign a buffer .query
  | fragment => exact hb.answer_view_assign a buffer .fragment

end Assign

/-- `a = b` gives `a` the values of `b` and leaves all of its views in its own
text, whatever is read from then on, exactly if the flag of `b` is set or each
view that earlier reads left in `a` is empty, or lies in the new text too and
belongs to a part that the authority of `b` has. -/
theorem assign_iff {a b : UriObject check} (hb : b.Made) (buffer : Nat) :
    ((∀ x, (a.assign b buffer).answer x = b.answer x) ∧
        ∀ u, Reads (a.assign b buffer) u → u.AllInside) ↔ b.parsedAuthority = true ∨
        ∀ p, (a.part p).span.size = 0 ∨
          b.Defines p ∧ (a.part p).buffer = buffer ∧ (a.part p).span.stop ≤ b.str.length := by
  have hused := hb.used
  have hintact := hused.intact_assign a buffer
  constructor
  · rintro ⟨hanswers, hinside⟩
    rcases Bool.eq_false_or_eq_true b.parsedAuthority with hflag | hflag
    · exact .inl hflag
    refine .inr fun p => or_iff_not_imp_left.mpr fun hsize => ?_
    have hpart : (a.assign b buffer).part p = a.part p := by simp [assign, hflag]
    have hin := (hinside _ .refl).2 p
    rw [hpart] at hin
    refine ⟨by_contra fun hp => hsize ?_, hin (Nat.pos_of_ne_zero hsize)⟩
    -- the stale view would be read
    have htext := hused.text_part_assign a buffer hp
    rw [hanswers, hpart, text_of_inside hin] at htext
    have hnil := readPart_eq_nil (htext.1.symm.trans htext.2)
    exact (Span.text_eq_nil_iff fun hpos => (hin hpos).2).mp hnil
  · intro hcond
    have hpart (p : AuthorityPart) : ((a.assign b buffer).part p).span.size = 0 ∨
        b.Defines p ∧ (a.assign b buffer).Inside ((a.assign b buffer).part p) := by
      rw [span_part_assign]
      rcases Bool.eq_false_or_eq_true b.parsedAuthority with hflag | hflag
      · rw [if_pos hflag]
        exact .inl (hused.part_of_flag hflag p)
      · rw [if_neg (by simp [hflag])]
        have hpart : (a.assign b buffer).part p = a.part p := by simp [assign, hflag]
        rw [hpart]
        exact (hcond.resolve_left (by simp [hflag]) p).imp id fun h => ⟨h.1, fun _ => h.2⟩
    refine ⟨answer_assign_of_parts a buffer hused fun p => ?_, fun u hreads => ?_⟩
    · by_cases hp : b.Defines p
      · exact hused.answer_part_assign a buffer hp
      · obtain ⟨htext, hb⟩ := hused.text_part_assign a buffer hp
        have hsize := (hpart p).resolve_right fun h => hp h.1
        rw [htext, hb, text, if_pos hsize]
        rfl
    · refine (hintact.allInside_of_reads ⟨hintact.parsed.view_inside, fun p => ?_⟩ hreads).2
      rcases hpart p with hsize | ⟨-, hin⟩
      · exact fun hpos => absurd hsize hpos.ne'
      · exact hin

/-- "http://localhost/", in a buffer of its own. -/
def localhost : UriObject .strict :=
  ofViews .strict 1 (OpenCmw.str "http://localhost/")
    { scheme := ⟨0, 4⟩, authority := ⟨7, 9⟩, path := ⟨16, 1⟩ }

theorem localhost_made : localhost.Made := made_of_parse (by decide +kernel) 1

/-- "http://user@h/". -/
def withUser : UriObject .strict :=
  ofViews .strict 0 (OpenCmw.str "http://user@h/")
    { scheme := ⟨0, 4⟩, authority := ⟨7, 6⟩, path := ⟨13, 1⟩ }

theorem withUser_made : withUser.Made := made_of_parse (by decide +kernel) 0

/-- Once the user of the target was read, it is read off the new text. -/
theorem stale_user_after_assign :
    ∃ u r, withUser.Made ∧ withUser.call .user = some (r, u) ∧ localhost.Made ∧
      (u.assign localhost 0).answer .user = some (.text (some (OpenCmw.str "loca"))) ∧
      localhost.answer .user = some (.text none) :=
  ⟨withUser.parseAuthority, .text (some (OpenCmw.str "user")), withUser_made, rfl, localhost_made,
    rfl, rfl⟩

theorem assign_iff_unread :
    (∀ x, ((ofViews .strict 0 [] {}).assign localhost 0).answer x = localhost.answer x) ∧
      ∀ u, Reads ((ofViews .strict 0 [] {}).assign localhost 0) u → u.AllInside :=
  (assign_iff localhost_made 0).mpr (.inr fun _ => .inl rfl)

end UriObject

end OpenCmw
