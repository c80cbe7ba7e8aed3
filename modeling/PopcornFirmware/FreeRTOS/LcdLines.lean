import PopcornFirmware.Lib.CText
import PopcornFirmware.Lib.Ring
import PopcornFirmware.Lib.Runs

namespace PopcornFirmware.FreeRTOS.LcdLines

open PopcornFirmware.Lib.CText PopcornFirmware.Lib.Ring PopcornFirmware.Lib.Runs

section Screen

/-- The characters on the display, by the pixel row a line starts at and the
number of the column; a character is 16 pixels wide and 24 high. -/
abbrev Screen := Nat → Nat → UInt8

/-- LCD_PIXEL_WIDTH / LCD_Currentfonts->Width. -/
def columns : Nat := 20

/-- The macro LINE with the height of Font16x24, and the LineN. -/
def line (x : Nat) : Nat := x * 24

def lcdDisplayChar (row column : Nat) (ascii : UInt8) (screen : Screen) : Screen :=
  Function.update screen row (Function.update (screen row) column ascii)

def lcdClearLine (row : Nat) (screen : Screen) : Screen :=
  (List.range columns).foldl (fun screen column => lcdDisplayChar row column (ch ' ') screen) screen

/-- The loop of LCD_DisplayStringLine, with the columns that are left. -/
def displayLoop (lines : Vector UInt8 200) (row : Nat) :
    Nat → Nat → Nat → Screen → Option Screen
  | 0, _, _, screen => some screen
  | left + 1, column, ptr, screen =>
    lines[ptr]?.bind fun c =>
      if c ≠ 0 then
        displayLoop lines row left (column + 1) (ptr + 1) (lcdDisplayChar row column c screen)
      else some screen

def lcdDisplayStringLine (lines : Vector UInt8 200) (row ptr : Nat) (screen : Screen) :
    Option Screen := displayLoop lines row columns 0 ptr screen

end Screen

/-- LCD_String_Line, row after row, and the display. -/
structure State where
  lines : Vector UInt8 200
  screen : Screen

def init (screen : Screen) : State := ⟨Vector.replicate 200 0, screen⟩

/-- Where LCD_String_Line[i] begins. -/
def rowStart (i : Nat) : Nat := i * 20

/-- LCD_LINE_Control. The copy has to stay inside the array. -/
def lcdLineControl (row : Nat) (str : Text) (s : State) : Option State :=
  let screen := lcdClearLine row s.screen
  (storeAll s.lines (rowStart row) (str ++ [0])).bind fun lines =>
    (lcdDisplayStringLine lines row (rowStart row) screen).map fun screen => ⟨lines, screen⟩

/-- The body of LCD_Control_thread. Nothing assigns to clear_line. -/
def lcdControlThread (s : State) : Option Screen :=
  (List.range 10).foldlM (fun screen i => lcdDisplayStringLine s.lines (line i) (rowStart i) screen)
    (lcdClearLine 0 s.screen)

/-- A call LCD_LINE_Control(LineN, str) with a C string. -/
structure Call where
  n : Fin 10
  str : Text
  noNul : ∀ c ∈ str, c ≠ 0

def step (s : State) (c : Call) : Option State := lcdLineControl (line c.n) c.str s

/-- The 20 bytes of LCD_String_Line[n] begin with the string and its NUL. -/
def RowHolds (s : State) (n : Nat) (str : Text) : Prop :=
  str ++ [0] <+: (s.lines.toList.drop (rowStart n)).take 20

/-- The line shows the string and blanks behind it. -/
def Shows (screen : Screen) (row : Nat) (str : Text) : Prop :=
  ∀ column < columns, screen row column = (str[column]?).getD (ch ' ')

def lastText (n : Fin 10) (calls : List Call) : Option Text :=
  (calls.reverse.find? (·.n = n)).map Call.str

/-- After the calls, the rows hold the last strings given for them, and drawing
all rows shows these. -/
def Kept (screen : Screen) (calls : List Call) : Prop :=
  ∃ s redrawn, exec step (init screen) calls = some s ∧ lcdControlThread s = some redrawn ∧
    ∀ n str, lastText n calls = some str → RowHolds s n str ∧ Shows redrawn (line n) str

/-- The call changes no bytes but the 20 of its row. -/
def OwnRow (s : State) (c : Call) : Prop :=
  ∀ t, step s c = some t → ∀ j, j < rowStart c.n ∨ rowStart c.n + 20 ≤ j →
    t.lines[j]? = s.lines[j]?

section Display

variable {lines : Vector UInt8 200} {screen : Screen} {str : Text} {row column ptr : Nat}

/-- The loop draws the string from its column on, as far as there are columns. -/
theorem displayLoop_executes (hnul : ∀ c ∈ str, c ≠ 0)
    (hstr : ∀ j < (str ++ [0]).length, lines[ptr + j]? = (str ++ [0])[j]?) (left : Nat) :
    ∃ screen', displayLoop lines row left column ptr screen = some screen' ∧
      ∀ c, screen' row c =
        if column ≤ c ∧ c < column + left then (str[c - column]?).getD (screen row c)
        else screen row c := by
  induction str generalizing left column ptr screen with
  | nil =>
    cases left with
    | zero => exact ⟨screen, rfl, fun c => by simp⟩
    | succ left =>
      have hend : lines[ptr]? = some 0 := hstr 0 (by simp)
      exact ⟨screen, by rw [displayLoop, hend]; rfl, fun c => by simp⟩
  | cons a str ih =>
    cases left with
    | zero => exact ⟨screen, rfl, fun c => (if_neg (by omega)).symm⟩
    | succ left =>
      have ha : a ≠ 0 := hnul a List.mem_cons_self
      have hget : lines[ptr]? = some a := hstr 0 (by simp)
      have hrest : ∀ j < (str ++ [0]).length, lines[ptr + 1 + j]? = (str ++ [0])[j]? := by
        intro j hj
        have hnext := hstr (j + 1) (by simpa using hj)
        rw [Nat.add_assoc, Nat.add_comm 1 j, hnext, List.cons_append, List.getElem?_cons_succ]
      obtain ⟨screen', hrun, hshow⟩ :=
        ih (fun c hc => hnul c (List.mem_cons_of_mem a hc)) hrest left
      refine ⟨screen', by rw [displayLoop, hget, Option.bind_some, if_pos ha, hrun], fun c => ?_⟩
      rw [hshow c, lcdDisplayChar, Function.update_self]
      obtain hlt | rfl | hgt := Nat.lt_trichotomy c column
      · rw [if_neg (by omega), if_neg (by omega), Function.update_of_ne (by omega)]
      · rw [if_neg (by omega), if_pos (by omega), Function.update_self]
        simp
      · rw [Function.update_of_ne (by omega)]
        have hsub : c - column = (c - (column + 1)) + 1 := by omega
        rw [hsub, List.getElem?_cons_succ]
        by_cases hleft : c < column + (left + 1)
        · rw [if_pos (by omega), if_pos (by omega)]
        · rw [if_neg (by omega), if_neg (by omega)]

theorem lcdClearLine_executes (row : Nat) (screen : Screen) :
    ∀ column < columns, lcdClearLine row screen row column = ch ' ' := by
  have hloop : ∀ n, ∀ column < n, (List.range n).foldl
      (fun screen column => lcdDisplayChar row column (ch ' ') screen) screen row column =
        ch ' ' := by
    intro n
    induction n with
    | zero => intro column h; omega
    | succ n ih =>
      intro column h
      rw [List.range_succ, List.foldl_append, List.foldl_cons, List.foldl_nil, lcdDisplayChar,
        Function.update_self]
      by_cases hlast : column = n
      · rw [hlast, Function.update_self]
      · rw [Function.update_of_ne hlast, ih column (by omega)]
  exact hloop columns

theorem shows_drawn (row : Nat) (screen : Screen) (hnul : ∀ c ∈ str, c ≠ 0)
    (hstr : ∀ j < (str ++ [0]).length, lines[ptr + j]? = (str ++ [0])[j]?) :
    ∃ screen', lcdDisplayStringLine lines row ptr (lcdClearLine row screen) = some screen' ∧
      Shows screen' row str := by
  obtain ⟨screen', hrun, hshow⟩ := displayLoop_executes hnul hstr columns
  refine ⟨screen', hrun, fun c hc => ?_⟩
  rw [hshow c, if_pos (by omega), Nat.sub_zero, lcdClearLine_executes row screen c hc]

theorem displayed_nothing (h : lines[ptr]? = some 0) (row : Nat) (screen : Screen) :
    lcdDisplayStringLine lines row ptr screen = some screen := by
  rw [lcdDisplayStringLine, columns, displayLoop, h]
  rfl

end Display

section Rows

variable {s t : State} {c : Call} {calls : List Call} {str : Text} {screen : Screen}

/-- The first row holds the string, and nothing has been stored behind it. -/
structure FirstRow (s : State) (str : Text) : Prop where
  noNul : ∀ c ∈ str, c ≠ 0
  length_le : str.length ≤ 19
  stored : ∀ j < (str ++ [0]).length, s.lines[0 + j]? = (str ++ [0])[j]?
  others : ∀ j, 20 ≤ j → j < 200 → s.lines[j]? = some 0

theorem firstRow_init (screen : Screen) : FirstRow (init screen) [] where
  noNul := by simp
  length_le := Nat.zero_le 19
  stored := by
    intro j hj
    obtain rfl : j = 0 := by simpa using hj
    rfl
  others := by
    intro j _ hj
    rw [init, Vector.getElem?_eq_getElem hj, Vector.getElem_replicate]

theorem step_executes (hs : FirstRow s str) (hn : c.n = 0) (hlen : c.str.length ≤ 19) :
    ∃ t, step s c = some t ∧ FirstRow t c.str := by
  have hbytes : (c.str ++ [0]).length ≤ 20 := by
    rw [List.length_append, List.length_singleton]
    omega
  obtain ⟨lines, hstore, hin, hout⟩ :=
    storeAll_of_le s.lines (show 0 + (c.str ++ [0]).length ≤ 200 by omega)
  obtain ⟨screen', hdraw, -⟩ := shows_drawn 0 s.screen c.noNul hin
  refine ⟨⟨lines, screen'⟩, ?_, c.noNul, hlen, hin, fun j hj hlt => ?_⟩
  · have hrow : line (c.n : Nat) = 0 := by rw [hn]; rfl
    have hstart : rowStart 0 = 0 := rfl
    rw [step, lcdLineControl, hrow, hstart, hstore, Option.bind_some, hdraw]
    rfl
  · rw [hout j (by omega), hs.others j hj hlt]

/-- A call that returns has stored its string and the NUL inside the array. -/
theorem step_stored (h : step s c = some t) : rowStart (line c.n) + c.str.length + 1 ≤ 200 ∧
    storeAll s.lines (rowStart (line c.n)) (c.str ++ [0]) = some t.lines := by
  obtain ⟨lines, hstore, hdraw⟩ := Option.bind_eq_some_iff.mp h
  obtain ⟨screen', -, rfl⟩ := Option.map_eq_some_iff.mp hdraw
  refine ⟨?_, hstore⟩
  cases hstr : c.str with
  | nil =>
    rw [hstr, List.nil_append] at hstore
    have hle := storeAll_le hstore
    simpa using hle
  | cons a str =>
    rw [hstr, List.cons_append] at hstore
    have hle := storeAll_le hstore
    simp only [List.length_cons, List.length_append, List.length_nil] at hle ⊢
    omega

theorem n_eq_zero (h : step s c = some t) : c.n = 0 := by
  have hle := (step_stored h).1
  unfold rowStart line at hle
  exact Fin.ext (by show (c.n : Nat) = 0; omega)

theorem ownRow_of_fits (hlen : c.str.length ≤ 19) : OwnRow s c := by
  intro t h j hj
  have hn : (c.n : Nat) = 0 := by rw [n_eq_zero h]; rfl
  obtain ⟨hle, hstore⟩ := step_stored h
  rw [hn] at hj hle hstore
  have hlen' : rowStart (line 0) + (c.str ++ [0]).length ≤ 200 := by
    rw [List.length_append, List.length_singleton]
    omega
  obtain ⟨lines, hstore', -, hout⟩ := storeAll_of_le s.lines hlen'
  cases hstore.symm.trans hstore'
  refine hout j ?_
  rw [List.length_append, List.length_singleton]
  unfold rowStart at hj
  unfold rowStart line
  omega

theorem lcdControlThread_firstRow (hs : FirstRow s str) :
    ∃ redrawn, lcdControlThread s = some redrawn ∧ Shows redrawn 0 str := by
  obtain ⟨screen', hdraw, hshow⟩ := shows_drawn 0 s.screen hs.noNul hs.stored
  refine ⟨screen', ?_, hshow⟩
  have hrest : ∀ is : List Nat, (∀ i ∈ is, 1 ≤ i ∧ i < 10) → is.foldlM (fun screen i =>
      lcdDisplayStringLine s.lines (line i) (rowStart i) screen) screen' = some screen' := by
    intro is
    induction is with
    | nil => intro _; rfl
    | cons i is ih =>
      intro his
      obtain ⟨hpos, hlt⟩ := his i List.mem_cons_self
      have hzero := hs.others (rowStart i) (by unfold rowStart; omega) (by unfold rowStart; omega)
      rw [List.foldlM_cons, displayed_nothing hzero]
      exact ih fun k hk => his k (List.mem_cons_of_mem i hk)
  rw [lcdControlThread, show List.range 10 = 0 :: [1, 2, 3, 4, 5, 6, 7, 8, 9] from rfl,
    List.foldlM_cons]
  have hfirst : lcdDisplayStringLine s.lines (line 0) (rowStart 0) (lcdClearLine 0 s.screen) =
      some screen' := hdraw
  rw [hfirst]
  exact hrest _ (by decide)

theorem rowHolds_firstRow (hs : FirstRow s str) : RowHolds s 0 str := by
  refine List.prefix_iff_getElem?.mpr fun j hj => ?_
  have hstored := hs.stored j hj
  have hlen := hs.length_le
  rw [List.length_append, List.length_singleton] at hj
  rw [List.getElem?_take, if_pos (by omega), List.getElem?_drop, Vector.getElem?_toList]
  rw [show rowStart 0 = 0 from rfl, hstored, List.getElem?_eq_getElem]

theorem lastText_concat (n : Fin 10) (calls : List Call) (c : Call) :
    lastText n (calls ++ [c]) = if c.n = n then some c.str else lastText n calls := by
  rw [lastText, List.reverse_append, List.reverse_singleton, List.singleton_append, List.find?_cons]
  by_cases hn : c.n = n <;> simp [hn, lastText]

/-- What a call has to be for its row to keep its string. -/
def FitsFirstRow (c : Call) : Prop := c.n = 0 ∧ c.str.length ≤ 19

theorem exec_firstRow (h : ∀ c ∈ calls, FitsFirstRow c) (screen : Screen) :
    ∃ s, exec step (init screen) calls = some s ∧ FirstRow s ((lastText 0 calls).getD []) ∧
      ∀ n str, lastText n calls = some str → n = 0 := by
  induction calls using List.reverseRecOn with
  | nil => exact ⟨init screen, rfl, firstRow_init screen, by simp [lastText]⟩
  | append_singleton calls c ih =>
    obtain ⟨s, hs, hrow, hother⟩ := ih fun c hc => h c (List.mem_append_left _ hc)
    obtain ⟨hn, hlen⟩ := h c (List.mem_append_right _ (List.mem_singleton_self c))
    obtain ⟨t, ht, hrow'⟩ := step_executes hrow hn hlen
    refine ⟨t, by rw [exec_concat hs, ht], ?_, fun n str hlast => ?_⟩
    · rwa [lastText_concat, if_pos hn]
    · rw [lastText_concat] at hlast
      by_cases hcn : c.n = n
      · rw [← hcn, hn]
      · exact hother n str (by rwa [if_neg hcn] at hlast)

theorem kept_of_fits (h : ∀ c ∈ calls, FitsFirstRow c) : Kept screen calls := by
  obtain ⟨s, hs, hrow, hother⟩ := exec_firstRow h screen
  obtain ⟨redrawn, hdraw, hshow⟩ := lcdControlThread_firstRow hrow
  refine ⟨s, redrawn, hs, hdraw, fun n str hlast => ?_⟩
  obtain rfl := hother n str hlast
  rw [hlast, Option.getD_some] at hrow hshow
  exact ⟨rowHolds_firstRow hrow, hshow⟩

theorem fits_of_kept {p : List Call} (hp : Kept screen p) (hc : Kept screen (p ++ [c])) :
    FitsFirstRow c := by
  obtain ⟨s, _, hs, -⟩ := hp
  obtain ⟨t, redrawn, ht, -, hkept⟩ := hc
  rw [exec_concat hs] at ht
  refine ⟨n_eq_zero ht, ?_⟩
  have hholds := (hkept c.n c.str (by rw [lastText_concat, if_pos rfl])).1
  have hle := hholds.length_le
  rw [List.length_append, List.length_singleton, List.length_take] at hle
  omega

/-- From any content of the display on, the rows keep their strings through a
sequence of calls, up to each of them and each in its own 20 bytes, exactly when all
calls are for Line0 with at most 19 characters: the other LineN are pixel rows. -/
theorem lcdLineControl_kept_iff (screen : Screen) (calls : List Call) :
    ((∀ p, p <+: calls → Kept screen p) ∧ Steps step OwnRow (init screen) calls) ↔
      ∀ c ∈ calls, c.n = 0 ∧ c.str.length ≤ 19 := by
  constructor
  · rintro ⟨hkept, -⟩ c hc
    obtain ⟨p, rest, rfl⟩ := List.append_of_mem hc
    refine fits_of_kept (hkept p (List.prefix_append p _)) (hkept (p ++ [c]) ?_)
    exact ⟨rest, by simp⟩
  · intro h
    refine ⟨fun p hp => kept_of_fits fun c hc => h c (hp.subset hc), ?_⟩
    exact steps_of_forall (fun c hc _ => ownRow_of_fits (h c hc).2) _

/-- The second message of LCD_LED_Init, on Line1, is stored outside the array. -/
theorem lcdLineControl_line1 : ¬ ∀ screen calls, Kept screen calls := by
  intro h
  have hnul : ∀ c ∈ lit "Received Serial Num", c ≠ 0 := by decide
  obtain ⟨s, _, hs, -⟩ := h (fun _ _ => 0) [⟨1, lit "Received Serial Num", hnul⟩]
  obtain ⟨t, ht, -⟩ := Option.bind_eq_some_iff.mp hs
  cases n_eq_zero ht

end Rows

end PopcornFirmware.FreeRTOS.LcdLines
