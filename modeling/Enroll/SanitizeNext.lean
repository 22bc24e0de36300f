/-
# Where a login leads

`sanitizeNext` checks the origin of one parse and returns the path and the query of it, which the
browser parses once more.  The two parses differ where the path begins with two slashes: `/.//evil.com`
is a path of any origin, and `//evil.com`, which is what comes out, is a host
(`Campus.next_leaves`).  A `blob:` URL takes its origin from the URL in its path, and there is no
leading slash at all.

`sanitizeNext_safe_iff`: in every other case the second parse gives the path back, at the origin of
the page.
-/
import Enroll.UrlRoundTrip

namespace Enroll.Web

open Url (Str Platform Base Record Surfaces Leads)

/-! ## 1. The function -/

/-- Where a visitor with no usable `next` lands after signing in. -/
def DEFAULT_DESTINATION : Str := "/catalog".toList

/-- `https://internal.invalid`, parsed. -/
def internal : Base := ⟨true, ⟨"internal.invalid".toList, none⟩, [[]], none⟩

/-- `next` is `none` where the source has `undefined`. -/
def sanitizeNext (p : Platform) (next : Option Str) : Str :=
  match next with
  | none => DEFAULT_DESTINATION
  | some [] => DEFAULT_DESTINATION
  | some next =>
    match Url.parse p (some internal) next with
    | none => DEFAULT_DESTINATION
    | some url =>
      if url.origin p ≠ internal.origin then DEFAULT_DESTINATION else url.pathname ++ url.search

/-! ## 2. What it is for -/

/-- Resolved at any `http` or `https` URL, as `window.location.assign` does, it stays at the origin. -/
def RedirectSafe (p : Platform) (dest : Str) : Prop :=
  ∀ b : Base, (Url.parse p (some b) dest).map (fun u => u.origin p) = some b.origin

/-- What `sanitizeNext` returns is safe, and is returned again. -/
structure Safe (p : Platform) (next : Option Str) : Prop where
  redirect : RedirectSafe p (sanitizeNext p next)
  again : sanitizeNext p (some (sanitizeNext p next)) = sanitizeNext p next

/-- The reference that `next` is, if it passes the check of the origin, is not a `blob:` URL, and no
empty segment of its path surfaces. -/
def Harmless (p : Platform) (next : Option Str) : Prop :=
  ∀ s r, next = some s → s ≠ [] → Url.reference p (some internal) s = some r →
    r.url.origin p = internal.origin →
      r.scheme ≠ Url.blob ∧ ∀ start raw, r.path = .segments start raw → ¬ Surfaces raw

section

variable {p : Platform} {next : Option Str} {s : Str} {r : Url.Reference}

theorem internal_regular : internal.Regular where
  path_tidy seg h := List.mem_singleton.mp h ▸ Url.tidy_nil
  path_ne_nil := by decide
  query_encoded q h := absurd h (by simp [internal])

/-- The default, or a URL that passed the check. -/
theorem sanitizeNext_cases (p : Platform) (next : Option Str) :
    (sanitizeNext p next = DEFAULT_DESTINATION ∧ Harmless p next) ∨
      ∃ s r, next = some s ∧ s ≠ [] ∧ Url.reference p (some internal) s = some r ∧
        r.url.origin p = internal.origin ∧
        sanitizeNext p next = r.url.pathname ++ r.url.search := by
  rcases next with _ | _ | ⟨c, s⟩
  · exact Or.inl ⟨rfl, fun s r h => absurd h (by simp)⟩
  · exact Or.inl ⟨rfl, fun s r h hne => absurd (Option.some.inj h).symm hne⟩
  · cases href : Url.reference p (some internal) (c :: s) with
    | none =>
      refine Or.inl ⟨by simp [sanitizeNext, Url.parse, href], fun s' r h _ hr => ?_⟩
      obtain rfl := Option.some.inj h
      exact absurd (href.symm.trans hr) (by simp)
    | some r =>
      by_cases horigin : r.url.origin p = internal.origin
      · refine Or.inr ⟨c :: s, r, rfl, by simp, href, horigin, ?_⟩
        simp [sanitizeNext, Url.parse, href, horigin]
      · refine Or.inl ⟨by simp [sanitizeNext, Url.parse, href, horigin], fun s' r' h _ hr ho => ?_⟩
        obtain rfl := Option.some.inj h
        obtain rfl := Option.some.inj (href.symm.trans hr)
        exact absurd ho horigin

/-! ## 3. Paths in normal form -/

open Url (Tidy Encoded written writtenQuery)

/-- A path in normal form that does not begin with two slashes. -/
theorem safe_written {segs : List Str} {q : Option Str} (hs : ∀ seg ∈ segs, Tidy seg)
    (hne : segs ≠ []) (hlead : ¬ Leads segs) (hq : ∀ t ∈ q, Encoded t)
    (hnext : sanitizeNext p next = written segs ++ writtenQuery q) : Safe p next := by
  have horigin : ∀ (b : Base) q', Record.origin ⟨b.scheme, b.authority, .segments segs, q'⟩ p
      = b.origin := by
    intro b q'
    have hblob : b.scheme ≠ Url.blob := by
      unfold Base.scheme
      cases b.secure <;> decide
    simp [Record.origin, hblob, Record.tupleOrigin, Url.isSpecial_base, Base.origin]
  constructor
  · intro b
    obtain ⟨q', hparse, -⟩ := Url.parse_written (p := p) (b := b) hs hne hlead hq
    rw [hnext, hparse, Option.map_some, horigin]
  · obtain ⟨q', hparse, hquery⟩ := Url.parse_written (p := p) (b := internal) hs hne hlead hq
    obtain ⟨c, text, htext⟩ : ∃ c text, written segs ++ writtenQuery q = c :: text := by
      obtain ⟨seg, rest, rfl⟩ := List.exists_cons_of_ne_nil hne
      exact ⟨'/', _, rfl⟩
    rw [hnext]
    have hresult : written segs ++ writtenQuery q' = written segs ++ writtenQuery q := by rw [hquery]
    rw [htext] at hparse ⊢
    simp only [sanitizeNext, hparse, horigin, ne_eq, not_true_eq_false, if_false]
    exact hresult.trans htext

theorem safe_default (h : sanitizeNext p next = DEFAULT_DESTINATION) : Safe p next := by
  have htidy : Tidy "catalog".toList :=
    ⟨Url.forall_of_all (by decide), Url.forall_of_all (by decide), by decide, by decide⟩
  have hlead : ¬ Leads ["catalog".toList] := by
    rintro ⟨seg, rest, hlead⟩
    exact absurd hlead (by simp)
  have hall : ∀ seg ∈ ["catalog".toList], Tidy seg :=
    fun seg hseg => List.mem_singleton.mp hseg ▸ htidy
  exact safe_written (q := none) hall (by simp) hlead (by simp) h

/-- Two slashes: what follows is a host, at whatever origin. -/
theorem not_safe_slashes {text : Str} (hvisible : ∀ c ∈ text, Url.Visible c) :
    ¬ RedirectSafe p ('/' :: '/' :: text) := by
  intro h
  let b (port : Option Nat) : Base := ⟨true, ⟨[], port⟩, [], none⟩
  have hscheme : (b none).scheme = (b (some 1)).scheme := rfl
  have hsame := Url.parse_slashes (p := p) hscheme hvisible
  have hnone := h (b none)
  have hsome := h (b (some 1))
  rw [hsame, hsome] at hnone
  exact absurd (Option.some.inj hnone) (by decide)

/-! ## 4. The references that pass -/

/-- A URL that passes, and is not a `blob:` URL, has a special scheme. -/
theorem special_of_origin (horigin : r.url.origin p = internal.origin) (hblob : r.scheme ≠ Url.blob) :
    Url.isSpecial r.scheme = true := by
  have htuple : r.url.tupleOrigin = internal.origin := by
    have hne : r.url.scheme ≠ Url.blob := hblob
    rwa [Record.origin, if_neg hne] at horigin
  unfold Record.tupleOrigin at htuple
  split at htuple
  · split at htuple
    · assumption
    · exact absurd htuple (by simp [Base.origin])
  · exact absurd htuple (by simp [Base.origin])

/-- Its path is in normal form, and begins with two slashes if an empty segment surfaces. -/
theorem path_of_origin (href : Url.reference p (some internal) s = some r)
    (horigin : r.url.origin p = internal.origin) (hblob : r.scheme ≠ Url.blob) :
    ∃ start raw, r.path = .segments start raw ∧
      (∀ seg ∈ Url.addSegments start raw, Tidy seg) ∧ Url.addSegments start raw ≠ [] ∧
      (Leads (Url.addSegments start raw) ↔ Surfaces raw) ∧ (∀ t ∈ r.query, Encoded t) ∧
      r.url.pathname ++ r.url.search = written (Url.addSegments start raw) ++ writtenQuery r.query := by
  obtain ⟨start, raw, hreg, hstart⟩ :=
    Url.reference_from internal_regular href (special_of_origin horigin hblob)
  have hpath := hreg.path_eq
  refine ⟨start, raw, hpath, Url.tidy_addSegments hreg.start_tidy hreg.raw_noSlash,
    Url.addSegments_ne_nil hreg.nonempty, ?_, hreg.query_encoded, ?_⟩
  · rcases hstart with rfl | rfl | ⟨rfl, rfl⟩
    · exact Url.leads_iff
    · exact Url.leads_iff
    · -- the path of the base, as it is
      constructor
      · rintro ⟨seg, rest, h⟩
        exact absurd h (by simp [internal, Url.addSegments])
      · rintro ⟨before, after, h, -⟩
        exact absurd h (by simp)
  · have hurl : r.url.path = .segments (Url.addSegments start raw) := by
      rw [Url.Reference.url, hpath]
      rfl
    rw [Record.pathname, hurl]
    rfl

/-- A `blob:` URL that passes comes out with the scheme of the URL in its path, and that is not what
the second pass returns. -/
theorem not_again_blob (horigin : r.url.origin p = internal.origin) (hblob : r.scheme = Url.blob) :
    sanitizeNext p (some (r.url.pathname ++ r.url.search)) ≠ r.url.pathname ++ r.url.search := by
  -- the URL in the path has the scheme of an origin
  have hinner : ∃ v, Url.parse p none r.url.pathname = some v ∧ v.scheme ≠ Url.blob := by
    have hscheme : r.url.scheme = Url.blob := hblob
    rw [Record.origin, if_pos hscheme] at horigin
    split at horigin
    · rename_i v hv
      split at horigin
      · rename_i hhttp
        refine ⟨v, hv, ?_⟩
        rcases hhttp with h | h <;> (rw [h]; decide)
      · exact absurd horigin (by simp [Base.origin])
    · exact absurd horigin (by simp [Base.origin])
  obtain ⟨v, hv, hscheme⟩ := hinner
  obtain ⟨inner, hinner, rfl⟩ := Option.map_eq_some_iff.mp hv
  obtain ⟨rest, hsplit⟩ := Url.scheme_of_reference hinner
  obtain ⟨rest', hsplit'⟩ := Url.splitScheme_append (t := r.url.search) hsplit
  -- so the result does not begin with a slash
  have hslash : ∀ text, r.url.pathname ++ r.url.search ≠ '/' :: text := by
    intro text h
    rw [h, Url.splitScheme_clean_slash] at hsplit'
    exact absurd hsplit' (by simp)
  intro hagain
  rcases sanitizeNext_cases p (some (r.url.pathname ++ r.url.search)) with
    ⟨hdefault, -⟩ | ⟨s', r', hs', -, href, horigin', hresult⟩
  · exact hslash _ (hagain.symm.trans hdefault)
  · obtain rfl := Option.some.inj hs'
    have hr' : r'.scheme = inner.scheme :=
      Url.absolute_scheme ((Url.reference_scheme hsplit').symm.trans href)
    have hblob' : r'.scheme ≠ Url.blob := fun h => hscheme (hr'.symm.trans h)
    obtain ⟨start, raw, -, -, hne, -, -, hwritten⟩ := path_of_origin href horigin' hblob'
    obtain ⟨seg, segs, hsegs⟩ := List.exists_cons_of_ne_nil hne
    rw [hsegs] at hwritten
    exact hslash _ ((hagain.symm.trans hresult).trans hwritten)

/-- **What `sanitizeNext` returns is safe if and only if `next` is harmless.** -/
theorem sanitizeNext_safe_iff (p : Platform) (next : Option Str) : Safe p next ↔ Harmless p next := by
  rcases sanitizeNext_cases p next with ⟨hdefault, hharmless⟩ | ⟨s, r, rfl, hne, href, horigin, hresult⟩
  · exact iff_of_true (safe_default hdefault) hharmless
  · by_cases hblob : r.scheme = Url.blob
    · refine iff_of_false (fun hsafe => ?_) fun h => (h s r rfl hne href horigin).1 hblob
      have hagain := hsafe.again
      rw [hresult] at hagain
      exact not_again_blob horigin hblob hagain
    · obtain ⟨start, raw, hpath, htidy, hnil, hleads, hquery, hwritten⟩ :=
        path_of_origin href horigin hblob
      by_cases hsurf : Surfaces raw
      · refine iff_of_false (fun hsafe => ?_) fun h => (h s r rfl hne href horigin).2 start raw hpath hsurf
        obtain ⟨seg, rest, hsegs⟩ := hleads.mpr hsurf
        have hredirect := hsafe.redirect
        rw [hresult, hwritten, hsegs] at hredirect
        refine not_safe_slashes (p := p) (fun c hc => ?_) hredirect
        rw [hsegs] at htidy
        rcases List.mem_append.mp hc with hc | hc
        · refine (Url.not_ends_written htidy ?_).2
          exact List.mem_cons_of_mem _ (List.mem_cons_of_mem _ hc)
        · exact Url.visible_writtenQuery hquery hc
      · refine iff_of_true (safe_written htidy hnil (fun h => hsurf (hleads.mp h)) hquery
          (hresult.trans hwritten)) fun s' r' hs' _ href' _ => ?_
        obtain rfl := Option.some.inj hs'
        obtain rfl := Option.some.inj (href.symm.trans href')
        refine ⟨hblob, fun start' raw' hpath' => ?_⟩
        obtain ⟨rfl, rfl⟩ := Url.RawPath.segments.inj (hpath.symm.trans hpath')
        exact hsurf

end

namespace Campus

/-- Hosts are taken as they are written. -/
def plain : Platform where
  authority _ text := if text.isEmpty then none else some ⟨text, none⟩
  file _ := none

/-- **A path of the site that leads elsewhere.** -/
theorem next_leaves : ¬ ∀ (p : Platform) (next : Option Str), Safe p next := by
  intro h
  have hresult : sanitizeNext plain (some "/.//evil.com".toList) = "//evil.com".toList := by decide
  have hsafe := (h plain (some "/.//evil.com".toList)).redirect
    ⟨true, ⟨"enroll.example.edu".toList, none⟩, ["login".toList], none⟩
  rw [hresult] at hsafe
  have hevil : (Url.parse plain
      (some ⟨true, ⟨"enroll.example.edu".toList, none⟩, ["login".toList], none⟩)
      "//evil.com".toList).map (fun u => u.origin plain)
        = some (.tuple Url.https ⟨"evil.com".toList, none⟩) := by decide
  rw [hevil] at hsafe
  exact absurd hsafe (by decide)

end Campus

end Enroll.Web
