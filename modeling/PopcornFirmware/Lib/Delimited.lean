import Mathlib.Data.List.Basic

namespace PopcornFirmware.Lib.Delimited

variable {α : Type*} [DecidableEq α]

/-- Cut a text after each occurrence of a delimiter; the first argument holds
what has been read since the last cut. -/
def cut (delim : List α) : List α → List α → List (List α)
  | piece, [] => if piece = [] then [] else [piece]
  | piece, c :: cs =>
    if delim <:+ piece ++ [c] then (piece ++ [c]) :: cut delim [] cs
    else cut delim (piece ++ [c]) cs

def cutAfter (delim text : List α) : List (List α) := cut delim [] text

variable {d : List α} {c : α}

theorem cut_body (piece body rest : List α) (hbody : c ∉ body) :
    cut (d ++ [c]) piece (body ++ rest) = cut (d ++ [c]) (piece ++ body) rest := by
  induction body generalizing piece with
  | nil => simp
  | cons b body ih =>
    have hbc : b ≠ c := fun h => hbody (by simp [h])
    have hno : ¬ (d ++ [c]) <:+ piece ++ [b] := by
      intro h
      obtain ⟨pre, hpre⟩ := h
      rw [← List.append_assoc] at hpre
      exact hbc (List.append_inj_right' hpre rfl |> List.singleton_inj.mp).symm
    simp only [List.cons_append, cut]
    rw [if_neg hno, ih _ (fun h => hbody (by simp [h]))]
    simp

/-- A body without the delimiter's last element is cut right behind the
delimiter that follows it. -/
theorem cut_piece (body rest : List α) (hbody : c ∉ body) (hd : c ∉ d) :
    cut (d ++ [c]) [] (body ++ (d ++ [c]) ++ rest) =
      (body ++ (d ++ [c])) :: cut (d ++ [c]) [] rest := by
  have hsplit : body ++ (d ++ [c]) ++ rest = (body ++ d) ++ (c :: rest) := by simp
  have hfree : c ∉ body ++ d := by simp [hbody, hd]
  have hend : (d ++ [c]) <:+ (body ++ d) ++ [c] := ⟨body, by simp⟩
  rw [hsplit, cut_body [] _ _ hfree, List.nil_append, cut, if_pos hend, List.append_assoc]

theorem cutAfter_flatten (bodies : List (List α)) (hd : c ∉ d) (h : ∀ b ∈ bodies, c ∉ b) :
    cutAfter (d ++ [c]) (bodies.map (· ++ (d ++ [c]))).flatten =
      bodies.map (· ++ (d ++ [c])) := by
  induction bodies with
  | nil => rfl
  | cons b bodies ih =>
    have hb : c ∉ b := h b (by simp)
    have hbs : ∀ b' ∈ bodies, c ∉ b' := fun b' hb' => h b' (by simp [hb'])
    have ihs := ih hbs
    rw [cutAfter] at ihs ⊢
    rw [List.map_cons, List.flatten_cons, cut_piece b _ hb hd, ihs]

end PopcornFirmware.Lib.Delimited
