/-
The directories that are asked for before a file is opened.

`mkdir_recursive` cuts the text of a path at its slashes, and what a path resolves to is built
up in the same order, so every directory on the way is what some text in front of a slash
resolves to (`resolve_visits`), `.` and `..` in the path or not.
-/
import EleDs.Proofs.Opening
import EleDs.Proofs.Paths

namespace EleDs

open CMem Paths

/-! ### The last slash -/

theorem beforeLastSlash_append (a b : Bytes) :
    beforeLastSlash (a ++ 47 :: b) = match beforeLastSlash b with
      | some dir => some (a ++ 47 :: dir)
      | none => some a := by
  induction a with
  | nil =>
      rw [List.nil_append, beforeLastSlash]
      cases beforeLastSlash b <;> simp
  | cons x a ih =>
      rw [List.cons_append, beforeLastSlash, ih]
      cases beforeLastSlash b <;> rfl

theorem beforeLastSlash_none {path : Bytes} : beforeLastSlash path = none ↔ 47 ∉ path := by
  constructor
  · intro h hmem
    obtain ⟨a, b, rfl⟩ := List.append_of_mem hmem
    rw [beforeLastSlash_append] at h
    cases hb : beforeLastSlash b <;> simp [hb] at h
  · intro h
    induction path with
    | nil => rfl
    | cons x rest ih =>
        rw [List.mem_cons, not_or] at h
        rw [beforeLastSlash, ih h.2, if_neg (Ne.symm h.1)]

/-- A path is its directory, a slash and one name. -/
theorem beforeLastSlash_some {path dir : Bytes} (h : beforeLastSlash path = some dir) :
    ∃ name, path = dir ++ 47 :: name ∧ 47 ∉ name := by
  induction path generalizing dir with
  | nil => cases h
  | cons b rest ih =>
      rw [beforeLastSlash] at h
      cases hrest : beforeLastSlash rest with
      | some dir' =>
          simp only [hrest, Option.some.injEq] at h
          obtain ⟨name, hname, hslash⟩ := ih hrest
          exact ⟨name, by rw [← h, hname, List.cons_append], hslash⟩
      | none =>
          simp only [hrest] at h
          obtain ⟨hb, hdir⟩ := Option.ite_none_right_eq_some.mp h
          cases hdir
          exact ⟨rest, by rw [hb, List.nil_append], beforeLastSlash_none.mp hrest⟩

/-- The directory in front of the last slash goes on to the slash before. -/
theorem prefix_beforeLastSlash {path dir text : Bytes} (h : beforeLastSlash path = some dir)
    (htext : text ++ [47] <+: path) : text = dir ∨ text ++ [47] <+: dir := by
  obtain ⟨rest, rfl⟩ := htext
  rw [List.append_assoc, List.singleton_append, beforeLastSlash_append] at h
  cases hrest : beforeLastSlash rest with
  | none =>
      rw [hrest] at h
      exact .inl (Option.some.inj h)
  | some dir' =>
      rw [hrest] at h
      cases h
      exact .inr ⟨dir', by simp⟩

/-! ### The directories on the way -/

theorem resolve_name {name : Bytes} (h : 47 ∉ name) : resolve name = move [] (moveOf name) := by
  rw [resolve_walk, List.splitOn_eq_singleton h]
  rfl

theorem resolve_snoc (dir : Bytes) {name : Bytes} (h : 47 ∉ name) :
    resolve (dir ++ 47 :: name) = move (resolve dir) (moveOf name) := by
  rw [resolve_append, routeOf, List.splitOn_eq_singleton h, List.map_singleton,
    List.foldl_cons, List.foldl_nil, ← Route.move_lead, Route.nowhere_lead]

theorem resolve_slash (dir : Bytes) : resolve (dir ++ [47]) = resolve dir := by
  rw [resolve_snoc dir (List.not_mem_nil), moveOf, if_pos (.inl rfl)]
  rfl

/-- A prefix of where a move leads is that place or a prefix of where it starts. -/
theorem prefix_move {α : Type} {dir place : List α} {m : Move α} (h : dir <+: move place m) :
    dir = move place m ∨ dir <+: place := by
  cases m with
  | stay => exact .inr h
  | up => exact .inr (h.trans (List.dropLast_prefix _))
  | down name => exact List.prefix_concat_iff.mp h

/-- **Every directory on the way is what some text in front of a slash resolves to.** -/
theorem resolve_visits {path : Bytes} {dir : Path} (hdir : dir <+: resolve path) (hne : dir ≠ []) :
    dir = resolve path ∨ ∃ text, text ++ [47] <+: path ∧ resolve text = dir := by
  cases hlast : beforeLastSlash path with
  | none =>
      left
      have hmove := resolve_name (beforeLastSlash_none.mp hlast)
      rw [hmove] at hdir ⊢
      rcases prefix_move hdir with heq | hnil
      · exact heq
      · exact absurd (List.prefix_nil.mp hnil) hne
  | some front =>
      have hshort := beforeLastSlash_length hlast
      obtain ⟨name, hpath, hslash⟩ := beforeLastSlash_some hlast
      have hfront : front ++ [47] <+: path := ⟨name, by rw [hpath]; simp⟩
      rw [hpath, resolve_snoc front hslash] at hdir ⊢
      rcases prefix_move hdir with heq | hbefore
      · exact .inl heq
      · right
        rw [← hpath]
        rcases resolve_visits hbefore hne with heq | ⟨text, htext, hres⟩
        · exact ⟨front, hfront, heq.symm⟩
        · exact ⟨text, htext.trans ((List.prefix_append _ _).trans hfront), hres⟩
termination_by path.length

/-! ### What `mkdir_recursive` asks for -/

theorem mem_slashPrefixes {tmp text : Bytes} (hne : text ≠ []) (h : text ++ [47] <+: tmp) :
    text ∈ slashPrefixes tmp := by
  obtain ⟨rest, rfl⟩ := h
  have hpos := List.length_pos_iff.mpr hne
  refine List.mem_map.mpr ⟨text.length, List.mem_filter.mpr ⟨?_, ?_⟩, ?_⟩
  · simp
  · simp only [decide_eq_true_eq]
    refine ⟨hpos, ?_⟩
    simp
  · simp

/-- A slash at the end does not matter. -/
theorem madeDirs_asked {dir text : Bytes} (hne : text ≠ [])
    (h : text = dir ∨ text ++ [47] <+: dir) :
    ∃ made ∈ madeDirs dir, resolve made = resolve text := by
  unfold madeDirs
  by_cases hend : dir.getLast? = some 47
  · obtain ⟨tmp, rfl⟩ := List.getLast?_eq_some_iff.mp hend
    rw [if_pos hend, List.dropLast_concat]
    have hcases : resolve text = resolve tmp ∨ text ++ [47] <+: tmp := by
      rcases h with rfl | hbefore
      · exact .inl (resolve_slash tmp)
      · rcases List.prefix_concat_iff.mp hbefore with heq | hbefore
        · rw [List.append_cancel_right heq]
          exact .inl rfl
        · exact .inr hbefore
    rcases hcases with heq | hbefore
    · exact ⟨tmp, List.mem_append_right _ (List.mem_singleton_self _), heq.symm⟩
    · exact ⟨text, List.mem_append_left _ (mem_slashPrefixes hne hbefore), rfl⟩
  · rw [if_neg hend]
    rcases h with rfl | hbefore
    · exact ⟨text, List.mem_append_right _ (List.mem_singleton_self _), rfl⟩
    · exact ⟨text, List.mem_append_left _ (mem_slashPrefixes hne hbefore), rfl⟩

/-- **All directories on the way to a path are asked for.** -/
theorem parentDirs_asked {path : Bytes} {dirs : List Bytes} (hdirs : parentDirs path = some dirs)
    {dir : Path} (hdir : dir <+: resolve path) (hne : dir ≠ []) (hproper : dir ≠ resolve path) :
    ∃ made ∈ dirs, resolve made = dir := by
  rcases resolve_visits hdir hne with heq | ⟨text, htext, hres⟩
  · exact absurd heq hproper
  · have htextne : text ≠ [] := by
      rintro rfl
      exact hne hres.symm
    unfold parentDirs at hdirs
    cases hlast : beforeLastSlash path with
    | none =>
        refine absurd (htext.subset ?_) (beforeLastSlash_none.mp hlast)
        exact List.mem_append_right _ (List.mem_singleton_self _)
    | some front =>
        simp only [hlast] at hdirs
        obtain ⟨-, hmade⟩ := Option.ite_none_left_eq_some.mp hdirs
        cases hmade
        obtain ⟨made, hmade, heq⟩ := madeDirs_asked htextne (prefix_beforeLastSlash hlast htext)
        exact ⟨made, hmade, heq.trans hres⟩

/-- The directories of a path can be made unless it is a name behind an empty one. -/
theorem parentDirs_isSome (dst name : Bytes) (h : dst = [] → 47 ∈ name) :
    (parentDirs (dst ++ 47 :: name)).isSome = true := by
  unfold parentDirs
  rw [beforeLastSlash_append]
  cases hname : beforeLastSlash name with
  | none =>
      have hdst : dst ≠ [] := fun hc => beforeLastSlash_none.mp hname (h hc)
      simp [hdst]
  | some dir => simp

end EleDs
