import PopcornFirmware.Lib.Preorder
import PopcornFirmware.Packet.Jsmn

namespace PopcornFirmware.Packet.JsmnForest

open PopcornFirmware.Lib.CText PopcornFirmware.Lib.Preorder PopcornFirmware.Packet.Jsmn

def sizes (ts : List Tok) : List Nat := ts.map Tok.size

/-- The tokens are the nodes of a forest in preorder, with their children so far
for sizes. The superior token and the open ones lie on the path to the last token,
and no open one below the superior one. -/
structure Built (numTokens : Nat) (p : Parser) (roots path : List Nat) : Prop where
  forest : Forest (sizes p.tokens) 0 p.tokens.length roots path
  super : ∀ s, p.toksuper = some s → s ∈ path
  opened : ∀ i t, p.tokens[i]? = some t → t.isOpen = true →
    t.isContainer = true ∧ i ∈ path ∧ ∃ s, p.toksuper = some s ∧ i ≤ s
  count : p.count = p.tokens.length
  room : p.tokens.length ≤ numTokens

variable {numTokens : Nat} {p p' : Parser} {roots path : List Nat} {tok : Tok} {c : UInt8}
  {js : Text}

theorem lastIdx_eq_some {test : Tok → Bool} {ts : List Tok} {i : Nat}
    (h : lastIdx test ts = some i) : (∃ t, ts[i]? = some t ∧ test t = true) ∧
      ∀ j t, ts[j]? = some t → test t = true → j ≤ i := by
  induction ts generalizing i with
  | nil => cases h
  | cons t ts ih =>
    cases hts : lastIdx test ts with
    | none =>
      have hnone := lastIdx_eq_none.mp hts
      simp only [lastIdx, hts, Option.ite_none_right_eq_some, Option.some.injEq] at h
      obtain ⟨ht, rfl⟩ := h
      refine ⟨⟨t, rfl, ht⟩, fun j u hu htest => ?_⟩
      cases j with
      | zero => exact Nat.le_refl 0
      | succ j =>
        rw [hnone u (List.mem_of_getElem? hu)] at htest
        cases htest
    | some k =>
      simp only [lastIdx, hts, Option.some.injEq] at h
      subst h
      obtain ⟨⟨u, hu, htest⟩, hlast⟩ := ih hts
      refine ⟨⟨u, hu, htest⟩, fun j v hv hv' => ?_⟩
      cases j with
      | zero => exact Nat.zero_le _
      | succ j => exact Nat.succ_le_succ (hlast j v hv hv')

theorem bumpSuper_length (p : Parser) : (bumpSuper p).tokens.length = p.tokens.length := by
  unfold bumpSuper
  split <;> simp

theorem bumpSuper_getElem? {i : Nat} {t : Tok} (h : (bumpSuper p).tokens[i]? = some t) :
    ∃ u, p.tokens[i]? = some u ∧ u.isOpen = t.isOpen ∧ u.isContainer = t.isContainer := by
  unfold bumpSuper at h
  split at h
  · exact ⟨t, h, rfl, rfl⟩
  · rw [List.getElem?_modify] at h
    obtain ⟨u, hu, rfl⟩ := Option.map_eq_some_iff.mp h
    refine ⟨u, hu, ?_⟩
    split <;> exact ⟨rfl, rfl⟩

/-- A new token becomes a child of the superior one, or a root when there is
none. -/
theorem Built.push (hb : Built numTokens p roots path) (htok : tok.size = 0) {q : Parser}
    (hq : q.tokens = p.tokens ++ [tok]) (hsuper : q.toksuper = p.toksuper) :
    ∃ roots' path', Forest (sizes (bumpSuper q).tokens) 0 (p.tokens.length + 1) roots' path' ∧
      p.tokens.length ∈ path' ∧
      ∀ s, p.toksuper = some s → ∀ x ∈ path, x ≤ s → x ∈ path' := by
  have hnew : ∀ ts : List Tok, (ts ++ [tok])[ts.length]?.map Tok.size = some 0 := by
    intro ts
    simp [htok]
  cases hs : p.toksuper with
  | none =>
    have hbump : (bumpSuper q).tokens = p.tokens ++ [tok] := by
      simp [bumpSuper, hsuper, hs, hq]
    have hforest : Forest (sizes (p.tokens ++ [tok])) 0 p.tokens.length roots path := by
      refine hb.forest.congr fun k _ hk => ?_
      rw [sizes, sizes, List.map_append, List.getElem?_append_left (by simpa using hk)]
    rw [hbump]
    refine ⟨_, _, hforest.push_root ?_, List.mem_singleton_self _, by simp⟩
    rw [sizes, List.getElem?_map]
    exact hnew p.tokens
  | some s =>
    have hmem := hb.super s hs
    have hlt := (hb.forest.path_bounds s hmem).2
    have hbump : (bumpSuper q).tokens =
        (p.tokens ++ [tok]).modify s fun t => { t with size := t.size + 1 } := by
      simp [bumpSuper, hsuper, hs, hq]
    have hold : (p.tokens ++ [tok])[s]? = some p.tokens[s] := by
      rw [List.getElem?_append_left hlt, List.getElem?_eq_getElem hlt]
    have hchild : (sizes p.tokens)[s]? = some p.tokens[s].size := by simp [sizes, hlt]
    have hbumped : (sizes (bumpSuper q).tokens)[s]? = some (p.tokens[s].size + 1) := by
      simp [sizes, hbump, hold]
    have hlast : (sizes (bumpSuper q).tokens)[p.tokens.length]? = some 0 := by
      rw [sizes, hbump, List.getElem?_map, List.getElem?_modify_ne _ _ (by omega)]
      exact hnew p.tokens
    have hothers : ∀ k < p.tokens.length, k ≠ s →
        (sizes (bumpSuper q).tokens)[k]? = (sizes p.tokens)[k]? := by
      intro k hk hne
      rw [sizes, sizes, hbump, List.getElem?_map, List.getElem?_map,
        List.getElem?_modify_ne _ _ (Ne.symm hne), List.getElem?_append_left hk]
    obtain ⟨path', hforest, hpath⟩ :=
      hb.forest.push_child hmem hchild hbumped hlast hothers
    refine ⟨_, path', hforest, (hpath _).mpr (Or.inr rfl), fun s' hs' x hx hxs => ?_⟩
    cases hs'
    exact (hpath x).mpr (Or.inl ⟨hx, hxs⟩)

theorem pushed_getElem? {q : Parser} (hq : q.tokens = p.tokens ++ [tok]) {i : Nat} {t : Tok}
    (h : (bumpSuper q).tokens[i]? = some t) (hopen : t.isOpen = true) :
    (∃ u, p.tokens[i]? = some u ∧ u.isOpen = true ∧ u.isContainer = t.isContainer) ∨
      (i = p.tokens.length ∧ tok.isOpen = true ∧ tok.isContainer = t.isContainer) := by
  obtain ⟨u, hu, huopen, hcont⟩ := bumpSuper_getElem? h
  rw [hq] at hu
  by_cases hi : i < p.tokens.length
  · rw [List.getElem?_append_left hi] at hu
    exact Or.inl ⟨u, hu, huopen.trans hopen, hcont⟩
  · rw [List.getElem?_append_right (by omega)] at hu
    obtain ⟨hlen, rfl⟩ := List.getElem?_eq_some_iff.mp hu
    simp only [List.length_singleton] at hlen
    refine Or.inr ⟨by omega, ?_, ?_⟩
    · simpa using huopen.trans hopen
    · simpa using hcont

theorem bumpSuper_count (p : Parser) : (bumpSuper p).count = p.count := by
  unfold bumpSuper
  split <;> rfl

theorem bumpSuper_toksuper (p : Parser) : (bumpSuper p).toksuper = p.toksuper := by
  unfold bumpSuper
  split
  · rfl
  · rename_i h
    exact h.symm ▸ rfl

/-- A string or a primitive leaves the superior token as it is. -/
theorem built_leaf (hb : Built numTokens p roots path) (htok : tok.size = 0)
    (hopen : tok.isOpen = false) (hroom : p.tokens.length < numTokens) {q : Parser}
    (hq : q.tokens = p.tokens ++ [tok]) (hsuper : q.toksuper = p.toksuper)
    (hcount : q.count = p.count + 1) : ∃ roots' path', Built numTokens (bumpSuper q) roots' path' := by
  obtain ⟨roots', path', hforest, -, hpath⟩ := hb.push htok hq hsuper
  have hlen : (bumpSuper q).tokens.length = p.tokens.length + 1 := by
    rw [bumpSuper_length, hq, List.length_append, List.length_singleton]
  refine ⟨roots', path', by rwa [hlen], ?_, ?_, ?_, by omega⟩
  · intro s hs
    rw [bumpSuper_toksuper, hsuper] at hs
    exact hpath s hs s (hb.super s hs) (Nat.le_refl s)
  · intro i t ht htopen
    obtain ⟨u, hu, huopen, hcont⟩ | ⟨-, htok', -⟩ := pushed_getElem? hq ht htopen
    · obtain ⟨hucont, hi, s, hs, his⟩ := hb.opened i u hu huopen
      rw [bumpSuper_toksuper, hsuper]
      exact ⟨hcont ▸ hucont, hpath s hs i hi his, s, hs, his⟩
    · rw [hopen] at htok'
      cases htok'
  · rw [bumpSuper_count, hcount, hlen, hb.count]

theorem jsmnAllocToken_eq (h : jsmnAllocToken numTokens p tok = .ok p') :
    p.tokens.length < numTokens ∧ p' = { p with tokens := p.tokens ++ [tok] } := by
  unfold jsmnAllocToken at h
  split at h
  · cases h
  · cases h
    exact ⟨by omega, rfl⟩

theorem isOpen_closed (type : Kind) (start size n : Nat) :
    Tok.isOpen ⟨type, start, (n : Int), size⟩ = false := by
  have hne : (n : Int) ≠ -1 := by omega
  simp [Tok.isOpen, hne]

theorem except_bind_eq_ok {ε α β : Type} {x : Except ε α} {f : α → Except ε β} {b : β} :
    x >>= f = .ok b ↔ ∃ a, x = .ok a ∧ f a = .ok b := by
  cases x with
  | error e => exact ⟨fun h => (nomatch h), fun ⟨_, h, _⟩ => (nomatch h)⟩
  | ok a => exact ⟨fun h => ⟨a, rfl, h⟩, fun ⟨_, h, hf⟩ => by cases h; exact hf⟩

theorem built_openBracket (hb : Built numTokens p roots path) {type : Kind}
    (htype : type = .object ∨ type = .array) (h : openBracket numTokens p type = .ok p') :
    ∃ roots' path', Built numTokens p' roots' path' := by
  obtain ⟨q, hq, heq⟩ := except_bind_eq_ok.mp h
  obtain ⟨hroom, rfl⟩ := jsmnAllocToken_eq hq
  cases heq
  have htok : Tok.size ⟨type, p.pos, -1, 0⟩ = 0 := rfl
  obtain ⟨roots', path', hforest, hlast, hpath⟩ := hb.push htok
    (q := { p with tokens := p.tokens ++ [⟨type, p.pos, -1, 0⟩] }) rfl rfl
  have hlen : (bumpSuper { p with tokens := p.tokens ++ [⟨type, p.pos, -1, 0⟩] }).tokens.length =
      p.tokens.length + 1 := by
    rw [bumpSuper_length, List.length_append, List.length_singleton]
  refine ⟨roots', path', by simpa only [hlen] using hforest, ?_, ?_, ?_, by dsimp only; omega⟩
  · intro s hs
    cases hs
    exact hlast
  · intro i t ht htopen
    refine ⟨?_, ?_⟩
    · obtain ⟨u, hu, huopen, hcont⟩ | ⟨-, -, hcont⟩ := pushed_getElem? rfl ht htopen
      · rw [← hcont]
        exact (hb.opened i u hu huopen).1
      · rw [← hcont]
        obtain rfl | rfl := htype <;> rfl
    · obtain ⟨u, hu, huopen, -⟩ | ⟨rfl, -, -⟩ := pushed_getElem? rfl ht htopen
      · obtain ⟨-, hi, s, hs, his⟩ := hb.opened i u hu huopen
        have hlt := (List.getElem?_eq_some_iff.mp hu).1
        exact ⟨hpath s hs i hi his, _, rfl, hlt.le⟩
      · exact ⟨hlast, _, rfl, Nat.le_refl _⟩
  · dsimp only
    rw [hlen, hb.count]

theorem sizes_modify (ts : List Tok) (i : Nat) (stop : Int) :
    sizes (ts.modify i fun t => { t with stop := stop }) = sizes ts := by
  refine List.ext_getElem? fun k => ?_
  rw [sizes, sizes, List.getElem?_map, List.getElem?_map, List.getElem?_modify]
  cases ts[k]? with
  | none => rfl
  | some t =>
    simp only [Option.map_some]
    split <;> rfl

theorem built_closeBracket (hb : Built numTokens p roots path) {type : Kind}
    (h : closeBracket p type = .ok p') : Built numTokens p' roots path := by
  unfold closeBracket at h
  split at h
  · cases h
  · rename_i i hi
    split at h
    · cases h
    · cases h
      obtain ⟨-, hlast⟩ := lastIdx_eq_some hi
      have hget : ∀ j t, (p.tokens.modify i fun t =>
          { t with stop := (p.pos : Int) + 1 })[j]? = some t → t.isOpen = true →
            j < i ∧ p.tokens[j]? = some t := by
        intro j t ht hopen
        rw [List.getElem?_modify] at ht
        obtain ⟨u, hu, rfl⟩ := Option.map_eq_some_iff.mp ht
        by_cases hji : i = j
        · rw [if_pos hji] at hopen
          have hclosed := isOpen_closed u.type 0 u.size (p.pos + 1)
          simp [Tok.isOpen] at hopen
          omega
        · rw [if_neg hji] at hopen ⊢
          have hle := hlast j u hu hopen
          exact ⟨by omega, by simpa using hu⟩
      refine ⟨by simpa only [sizes_modify, List.length_modify] using hb.forest, ?_, ?_, ?_, ?_⟩
      · intro s hs
        obtain ⟨⟨t, ht, hopen⟩, -⟩ := lastIdx_eq_some hs
        have ht' := List.mem_of_getElem? ht
        rw [List.getElem?_take] at ht
        obtain ⟨-, ht⟩ := Option.ite_none_right_eq_some.mp ht
        obtain ⟨-, hold⟩ := hget s t ht hopen
        exact (hb.opened s t hold hopen).2.1
      · intro j t ht hopen
        obtain ⟨hji, hold⟩ := hget j t ht hopen
        obtain ⟨hcont, hj, -⟩ := hb.opened j t hold hopen
        refine ⟨hcont, hj, ?_⟩
        have htake : ((p.tokens.modify i fun t =>
            { t with stop := (p.pos : Int) + 1 }).take (i + 1))[j]? = some t := by
          rw [List.getElem?_take, if_pos (by omega), ht]
        cases hs : lastIdx Tok.isOpen ((p.tokens.modify i fun t =>
            { t with stop := (p.pos : Int) + 1 }).take (i + 1)) with
        | none =>
          have hnone := lastIdx_eq_none.mp hs t (List.mem_of_getElem? htake)
          rw [hopen] at hnone
          cases hnone
        | some s => exact ⟨s, rfl, (lastIdx_eq_some hs).2 j t htake hopen⟩
      · simpa only [List.length_modify] using hb.count
      · simpa only [List.length_modify] using hb.room

theorem built_comma (hb : Built numTokens p roots path) : Built numTokens (comma p) roots path := by
  unfold comma
  split
  · exact hb
  · split
    · exact hb
    · split
      · exact hb
      · rename_i i hi
        obtain ⟨⟨t, ht, htest⟩, hlast⟩ := lastIdx_eq_some hi
        obtain ⟨-, htopen⟩ := Bool.and_eq_true_iff.mp htest
        refine ⟨hb.forest, ?_, ?_, hb.count, hb.room⟩
        · intro s hs
          cases hs
          exact (hb.opened i t ht htopen).2.1
        · intro j u hu huopen
          obtain ⟨hcont, hj, -⟩ := hb.opened j u hu huopen
          exact ⟨hcont, hj, i, rfl, hlast j u hu (by rw [hcont, huopen]; rfl)⟩

theorem built_colon (hb : Built numTokens p roots path) :
    Built numTokens { p with
      toksuper := if p.tokens = [] then none else some (p.tokens.length - 1) } roots path := by
  refine ⟨hb.forest, ?_, ?_, hb.count, hb.room⟩
  · intro s hs
    obtain ⟨hne, heq⟩ := Option.ite_none_left_eq_some.mp hs
    cases heq
    exact hb.forest.last_mem (List.length_pos_iff.mpr hne)
  · intro i t ht hopen
    obtain ⟨hcont, hi, -⟩ := hb.opened i t ht hopen
    have hlt : i < p.tokens.length := (List.getElem?_eq_some_iff.mp ht).1
    have hne : p.tokens ≠ [] := List.length_pos_iff.mp (by omega)
    exact ⟨hcont, hi, p.tokens.length - 1, if_neg hne, by omega⟩

theorem built_parseByte (hb : Built numTokens p roots path)
    (h : parseByte numTokens p c js = .ok p') : ∃ roots' path', Built numTokens p' roots' path' := by
  unfold parseByte at h
  split at h
  · exact built_openBracket hb (Or.inl rfl) h
  split at h
  · exact built_openBracket hb (Or.inr rfl) h
  split at h
  · exact ⟨roots, path, built_closeBracket hb h⟩
  split at h
  · exact ⟨roots, path, built_closeBracket hb h⟩
  split at h
  · obtain ⟨q, hq, heq⟩ := except_bind_eq_ok.mp h
    cases heq
    obtain ⟨pos, -, hq⟩ := except_bind_eq_ok.mp hq
    obtain ⟨q', hq', heq⟩ := except_bind_eq_ok.mp hq
    cases heq
    obtain ⟨hroom, rfl⟩ := jsmnAllocToken_eq hq'
    exact built_leaf hb rfl (isOpen_closed _ (p.pos + 1) 0 pos) hroom rfl rfl rfl
  split at h
  · cases h
    exact ⟨roots, path, hb⟩
  split at h
  · cases h
    exact ⟨roots, path, built_colon hb⟩
  split at h
  · cases h
    exact ⟨roots, path, built_comma hb⟩
  · obtain ⟨q, hq, heq⟩ := except_bind_eq_ok.mp h
    cases heq
    obtain ⟨pos, -, hq⟩ := except_bind_eq_ok.mp hq
    obtain ⟨q', hq', heq⟩ := except_bind_eq_ok.mp hq
    cases heq
    obtain ⟨hroom, rfl⟩ := jsmnAllocToken_eq hq'
    exact built_leaf hb rfl (isOpen_closed _ p.pos 0 pos) hroom rfl rfl rfl

theorem built_parseLoop {i : Nat} (hb : Built numTokens p roots path)
    (h : parseLoop numTokens i p js = .ok p') : ∃ roots' path', Built numTokens p' roots' path' := by
  induction js generalizing i p roots path with
  | nil =>
    cases h
    exact ⟨roots, path, hb⟩
  | cons c js ih =>
    rw [parseLoop] at h
    split at h
    · exact ih hb h
    split at h
    · cases h
      exact ⟨roots, path, hb⟩
    · obtain ⟨q, hq, hrest⟩ := except_bind_eq_ok.mp h
      obtain ⟨roots', path', hq'⟩ := built_parseByte hb hq
      exact ih (p := { q with pos := q.pos + 1 })
        ⟨hq'.forest, hq'.super, hq'.opened, hq'.count, hq'.room⟩ hrest

/-- What jsmn_parse leaves in the array is a forest in preorder, and what it
returns is the number of its nodes. -/
theorem jsmnParse_built (h : jsmnParse numTokens jsmnInit js = .ok p) :
    ∃ roots path, Built numTokens p roots path := by
  obtain ⟨q, hq, hend⟩ := except_bind_eq_ok.mp h
  have hinit : Built numTokens { jsmnInit with count := jsmnInit.tokens.length } [] [] :=
    ⟨.nil 0, by simp [jsmnInit], by simp [jsmnInit], rfl, Nat.zero_le numTokens⟩
  split at hend
  · cases hend
  · cases hend
    exact built_parseLoop hinit hq

end PopcornFirmware.Packet.JsmnForest
