import SafeNudge.Watchdog.Redact

/-!
# Redaction leaves no secret

The secrets are replaced one after the other, in a text where the URLs already are. No step brings
back what an earlier one removed: a word without `<` and `>` that occurs in the new text lies in a
part that was there before (`redactSecret_noUrl`, `infix_of_redactSecret`).
-/

namespace SafeNudge.Watchdog

open Lib

variable {text out s w q : Text} {secrets : List Text} {c : UInt16} {skip : Bool}

/-- No `http://` or `https://` with a character behind it that is no white space. -/
def NoUrl (text : Text) : Prop :=
  ∀ scheme ∈ ["http://", "https://"], ∀ c, isSpace c = false → ¬ascii scheme ++ [c] <:+: text

/-- What the markers cannot bring back: no white space, neither `<` nor `>`, and no part of
`<secret>`. -/
structure Removable (s : Text) : Prop where
  space : ∀ c ∈ s, isSpace c = false
  left : 60 ∉ s
  right : 62 ∉ s
  marker : ¬s <:+: ascii "<secret>"

/-! ## Literals -/

theorem ascii_secret : ascii "<secret>" = 60 :: ascii "secret" ++ [62] := by decide

theorem ascii_url : ascii "<url>" = 60 :: ascii "url" ++ [62] := by decide

/-- A scheme begins with an `h` and has neither `<` nor `>`; it is not part of a marker. -/
theorem scheme_spec : ∀ scheme ∈ ["http://", "https://"],
    (∃ rest, ascii scheme = 104 :: rest ∧ 60 ∉ rest) ∧ 60 ∉ ascii scheme ∧ 62 ∉ ascii scheme ∧
      ¬ascii scheme <:+: ascii "secret" ∧ ¬ascii scheme <:+: ascii "url" := by
  intro scheme hs
  simp only [List.mem_cons, List.not_mem_nil, or_false] at hs
  rcases hs with rfl | rfl
  · exact ⟨⟨_, rfl, by decide⟩, by decide⟩
  · exact ⟨⟨_, rfl, by decide⟩, by decide⟩

theorem startsUrl_iff : startsUrl text = true ↔
    ∃ scheme ∈ ["http://", "https://"], ∃ c, isSpace c = false ∧ ascii scheme ++ [c] <+: text := by
  unfold startsUrl
  simp only [List.any_eq_true, Bool.and_eq_true, List.isPrefixOf_iff_prefix, Option.any_eq_true,
    Bool.not_eq_true']
  refine exists_congr fun scheme => and_congr_right fun _ => ?_
  constructor
  · intro ⟨⟨rest, hrest⟩, c, hc, hspace⟩
    subst hrest
    rw [List.drop_left] at hc
    obtain ⟨rest', rfl⟩ : ∃ rest', rest = c :: rest' := by
      cases rest with
      | nil => cases hc
      | cons c' rest' =>
        cases hc
        exact ⟨rest', rfl⟩
    exact ⟨c, hspace, rest', by simp⟩
  · intro ⟨c, hspace, rest, hrest⟩
    subst hrest
    rw [List.append_assoc, List.drop_left]
    exact ⟨List.prefix_append _ _, c, rfl, hspace⟩

/-- A URL begins with an `h`. -/
theorem head_of_startsUrl (h : startsUrl (c :: text) = true) : c = 104 := by
  obtain ⟨scheme, hs, c', -, rest, hrest⟩ := startsUrl_iff.1 h
  obtain ⟨⟨rest', hscheme, -⟩, -⟩ := scheme_spec scheme hs
  rw [hscheme] at hrest
  exact (List.cons.inj hrest).1.symm

/-! ## URLs -/

/-- What is read in the new text before the next marker was in the old one, with something behind
it that is no white space. -/
theorem prefix_of_replaceUrls (hq : 60 ∉ q) (hc : isSpace c = false)
    (h : q ++ [c] <+: replaceUrls false text) :
    ∃ c', isSpace c' = false ∧ q ++ [c'] <+: text := by
  induction q generalizing text with
  | nil =>
    cases text with
    | nil => simp [replaceUrls] at h
    | cons d text =>
      rw [replaceUrls] at h
      split at h
      · have hd : d = 104 := head_of_startsUrl ‹startsUrl (d :: text) = true›
        subst hd
        exact ⟨104, by decide, text, rfl⟩
      · obtain ⟨rest, hrest⟩ := h
        obtain ⟨rfl, -⟩ := List.cons.inj hrest
        exact ⟨c, hc, text, rfl⟩
  | cons a q ih =>
    rw [List.mem_cons, not_or] at hq
    cases text with
    | nil => simp [replaceUrls] at h
    | cons d text =>
      obtain ⟨rest, hrest⟩ := h
      rw [replaceUrls] at hrest
      split at hrest
      · rw [ascii_url] at hrest
        exact absurd (List.cons.inj hrest).1.symm hq.1
      · obtain ⟨rfl, htail⟩ := List.cons.inj hrest
        obtain ⟨c', hc', rest', hrest'⟩ := ih hq.2 ⟨rest, htail⟩
        exact ⟨c', hc', rest', by rw [← hrest']; rfl⟩

theorem noUrl_replaceUrls : NoUrl (replaceUrls skip text) := by
  intro scheme hs c hc
  obtain ⟨⟨rest, hscheme, hrest⟩, hleft, hright, -, hinner⟩ := scheme_spec scheme hs
  induction text generalizing skip with
  | nil =>
    rw [replaceUrls, hscheme]
    simp
  | cons d text ih =>
    intro h
    cases skip with
    | true =>
      rw [replaceUrls] at h
      split at h
      · rcases List.infix_cons_iff.1 h with ⟨y, hy⟩ | h
        · rw [hscheme] at hy
          obtain ⟨rfl, -⟩ := List.cons.inj hy
          exact absurd ‹isSpace 104 = true› (by decide)
        · exact ih h
      · exact ih h
    | false =>
      rw [replaceUrls] at h
      split at h
      · obtain ⟨x, y, hxy⟩ := h
        rw [ascii_url, List.append_assoc, List.append_assoc] at hxy
        rcases occurs_marker (a := []) hleft hright hxy.symm with ⟨y', hy', -⟩ | hin | ⟨x', hx'⟩
        · rw [hscheme] at hy'
          simp at hy'
        · exact hinner hin
        · exact ih ⟨x', y, by rw [hx']; simp⟩
      · rcases List.infix_cons_iff.1 h with ⟨y, hy⟩ | h
        · rw [hscheme] at hy
          obtain ⟨rfl, htail⟩ := List.cons.inj hy
          obtain ⟨c', hc', y', hy'⟩ := prefix_of_replaceUrls hrest hc ⟨y, htail⟩
          refine ‹¬startsUrl _ = true› (startsUrl_iff.2 ⟨scheme, hs, c', hc', y', ?_⟩)
          rw [hscheme, ← hy']
          rfl
        · exact ih h

/-! ## Secrets -/

/-- What occurs after a round occurred before, and is not the secret of the round. -/
theorem infix_of_redactSecret (hw : Removable w) (hne : w ≠ []) (h : w <:+: redactSecret out s) :
    w <:+: out ∧ w ≠ s := by
  unfold redactSecret at h
  split at h
  · obtain ⟨x, y, hxy⟩ := h
    have hinner : ¬w <:+: ascii "secret" := fun hin =>
      hw.marker (hin.trans ⟨[60], [62], ascii_secret.symm⟩)
    rw [ascii_secret, List.append_assoc] at hxy
    obtain ⟨⟨part, hmem, hpart⟩, x', y', hout, -⟩ :=
      occurs_intercalate hne hw.left hw.right hinner s hxy.symm
    rw [intercalate_split ‹s ≠ []›] at hout
    refine ⟨⟨x', y', by rw [hout, List.append_assoc]⟩, fun he => ?_⟩
    exact not_infix_of_mem_split ‹s ≠ []› hmem (he ▸ hpart)
  · refine ⟨h, fun he => ?_⟩
    exact ‹¬s ≠ []› (he ▸ hne)

theorem redactSecret_noUrl (hs : s ≠ [] → Removable s) (h : NoUrl out) :
    NoUrl (redactSecret out s) := by
  unfold redactSecret
  split
  · intro scheme hscheme c hc ⟨x, y, hxy⟩
    obtain ⟨⟨rest, hcons, -⟩, hleft, hright, hinner, -⟩ := scheme_spec scheme hscheme
    rw [ascii_secret, List.append_assoc, List.append_assoc] at hxy
    obtain ⟨-, x', y', hout, hfollow⟩ :=
      occurs_intercalate (by rw [hcons]; simp) hleft hright hinner s hxy.symm
    rw [intercalate_split ‹s ≠ []›] at hout
    -- the character behind the scheme is the same as before, or the first one of the secret
    obtain ⟨c', hc', y'', rfl⟩ : ∃ c', isSpace c' = false ∧ ∃ y'', y' = c' :: y'' := by
      rcases hfollow with hhead | ⟨r, rfl⟩
      · cases y' with
        | nil => cases hhead
        | cons c' y'' =>
          cases hhead
          exact ⟨c, hc, y'', rfl⟩
      · cases s with
        | nil => exact absurd rfl ‹[] ≠ []›
        | cons c' s => exact ⟨c', (hs ‹_›).space c' List.mem_cons_self, s ++ r, rfl⟩
    exact h scheme hscheme c' hc' ⟨x', y'', by rw [hout]; simp⟩
  · exact h

theorem infix_of_foldl_redactSecret (hw : Removable w) (hne : w ≠ [])
    (h : w <:+: secrets.foldl redactSecret out) : w <:+: out ∧ w ∉ secrets := by
  induction secrets generalizing out with
  | nil => exact ⟨h, List.not_mem_nil⟩
  | cons s secrets ih =>
    obtain ⟨hin, hnot⟩ := ih h
    obtain ⟨hout, hws⟩ := infix_of_redactSecret hw hne hin
    refine ⟨hout, fun hmem => ?_⟩
    rcases List.mem_cons.1 hmem with rfl | hmem
    · exact hws rfl
    · exact hnot hmem

theorem foldl_redactSecret_noUrl (hs : ∀ s ∈ secrets, s ≠ [] → Removable s) (h : NoUrl out) :
    NoUrl (secrets.foldl redactSecret out) := by
  induction secrets generalizing out with
  | nil => exact h
  | cons s secrets ih =>
    exact ih (fun s' hs' => hs s' (.tail _ hs'))
      (redactSecret_noUrl (hs s List.mem_cons_self) h)

/-- The output of `redact` contains no secret, and no URL. -/
theorem redact_safe (text : Text) (secrets : List Text)
    (hs : ∀ s ∈ secrets, s ≠ [] → Removable s) :
    (∀ s ∈ secrets, s ≠ [] → ¬s <:+: redact text secrets) ∧ NoUrl (redact text secrets) :=
  ⟨fun s hmem hne h => (infix_of_foldl_redactSecret (hs s hmem hne) hne h).2 hmem,
    foldl_redactSecret_noUrl hs noUrl_replaceUrls⟩

namespace Demo

/-- A request that failed: the URL with its key, and the token twice. -/
def failed : Text := ascii "POST https://rpc.example/?api-key=k1 with tok-k1-tok-k1: refused"

def keys : List Text := [ascii "https://rpc.example/?api-key=k1", [], ascii "tok-k1", ascii "k1"]

end Demo

theorem redact_safe_failed : redact Demo.failed Demo.keys =
      ascii "POST <url> with <secret>-<secret>: refused" ∧
    ¬ascii "tok-k1" <:+: redact Demo.failed Demo.keys := by
  -- Whole lists are tested here, since `∀ c ∈ s` may be decided over all code units.
  have hall : (Demo.keys.all fun s => (s.all fun c => !isSpace c) && !s.contains 60 &&
      !s.contains 62 && (s.isEmpty || s.any fun c => !(ascii "<secret>").contains c)) = true := by
    decide +kernel
  have hs : ∀ s ∈ Demo.keys, s ≠ [] → Removable s := by
    intro s hmem hne
    have hkey := List.all_eq_true.1 hall s hmem
    simp only [Bool.and_eq_true, Bool.or_eq_true, List.isEmpty_iff, hne, false_or, List.all_eq_true,
      List.any_eq_true, Bool.not_eq_true', List.contains_eq_mem, decide_eq_false_iff_not] at hkey
    obtain ⟨⟨⟨hspace, hleft⟩, hright⟩, c, hc, hnot⟩ := hkey
    exact ⟨hspace, hleft, hright, fun hpart => hnot (hpart.subset hc)⟩
  exact ⟨by decide +kernel, (redact_safe Demo.failed Demo.keys hs).1 _ (by decide) (by decide)⟩

end SafeNudge.Watchdog
