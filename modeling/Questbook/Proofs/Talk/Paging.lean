/-
Questbook/Proofs/Talk/Paging.lean

The pages of a chat screen.

Replies may be offered at any time, before and after a page is shown, so that the pages move under
the one that is turned to.  What holds after any calls is that this is one of the pages:

    s.page < s.pages

for the replies only become more until all of them are forgotten, and then the first page is turned
to.  From this alone follows that a page never begins behind the last reply, so that what is shown
is a part of the replies, and that going back far enough and then on shows each of them on one page.

A page size of nothing counts as none, so that the division by it needs no care.

Main result: `pages_in_step`.
-/
import Mathlib
import Questbook.Talk.Screen

namespace Questbook.Screen

/-! ### Calls -/

/-- What can be asked of a screen. -/
inductive Call where
  | say (speaker text : String)
  | offer (text : String)
  | display
  | clear
  | close
  | navigate (command : String)

/-- The screen after a call, and the frames that the call shows. -/
def call (s : Screen) : Call → Screen × List Frame
  | .say speaker text => (s.say speaker text, [])
  | .offer text => (s.offer text, [])
  | .display => (s, s.display)
  | .clear => (s.clear, [])
  | .close => (s, s.close)
  | .navigate command => (s.navigate command).2

/-- The screen after one call after another, and the frames of all of them. -/
def callAll (s : Screen) : List Call → Screen × List Frame
  | [] => (s, [])
  | c :: rest => (((s.call c).1.callAll rest).1, (s.call c).2 ++ ((s.call c).1.callAll rest).2)

/-- The replies on offer after a call. -/
def Call.offered (texts : List String) : Call → List String
  | offer text => texts ++ [text]
  | clear => []
  | _ => texts

/-- The replies that were offered since all were forgotten for the last time. -/
def offered (calls : List Call) : List String := calls.foldl Call.offered []

/-- The part of a list from one position to before another, if there is such a part. -/
def slice? {α : Type} (l : List α) (start stop : Nat) : Option (List α) :=
  if start ≤ stop ∧ stop ≤ l.length then some ((l.take stop).drop start) else none

/-- The position behind the last reply shown. -/
def stop (s : Screen) : Nat :=
  match s.style with
  | .chat (some size) => min (s.page * size + size) s.prompt.options.length
  | _ => s.prompt.options.length

/-- The lines of the replies shown. -/
def replies (s : Screen) : List String := numbered (s.window.1 + 1) s.window.2

/-- The screen with another page turned to. -/
def onPage (s : Screen) (k : Nat) : Screen := { s with page := k }

/-- The page that a command turns to. -/
def turned (s : Screen) (command : String) : Nat :=
  if command = "next" then min (s.page + 1) (s.pages - 1) else s.page - 1

section

variable {s : Screen} {size k : Nat}

theorem callAll_append (s : Screen) (calls later : List Call) : s.callAll (calls ++ later) =
    (((s.callAll calls).1.callAll later).1,
      (s.callAll calls).2 ++ ((s.callAll calls).1.callAll later).2) := by
  induction calls generalizing s with
  | nil => simp [callAll]
  | cons c rest ih => simp [callAll, ih]

theorem callAll_concat (s : Screen) (calls : List Call) (c : Call) : s.callAll (calls ++ [c]) =
    (((s.callAll calls).1.call c).1, (s.callAll calls).2 ++ ((s.callAll calls).1.call c).2) := by
  rw [callAll_append]
  simp [callAll]

/-! ### Numbered lines -/

theorem getElem?_numbered (first : Nat) (l : List String) (i : Nat) :
    (numbered first l)[i]? = l[i]?.map fun text => toString (first + i) ++ ". " ++ text := by
  induction l generalizing first i with
  | nil => rfl
  | cons text rest ih =>
    cases i with
    | zero => rfl
    | succ i =>
      rw [numbered, List.getElem?_cons_succ, List.getElem?_cons_succ, ih,
        show first + 1 + i = first + (i + 1) by omega]

theorem numbered_append (first : Nat) (l l' : List String) :
    numbered first (l ++ l') = numbered first l ++ numbered (first + l.length) l' := by
  induction l generalizing first with
  | nil => rfl
  | cons text rest ih =>
    rw [List.cons_append, numbered, ih, numbered, List.length_cons, List.cons_append,
      show first + 1 + rest.length = first + (rest.length + 1) by omega]

/-! ### What a page is -/

theorem pages_of_size (h : s.style = .chat (some size)) :
    s.pages = max 1 ((s.prompt.options.length + size - 1) / size) := by
  rw [pages, h]

theorem window_of_size (h : s.style = .chat (some size)) :
    s.window = (s.page * size, (s.prompt.options.drop (s.page * size)).take size) := by
  rw [window, h]

theorem stop_of_size (h : s.style = .chat (some size)) :
    s.stop = min (s.page * size + size) s.prompt.options.length := by
  rw [stop, h]

theorem pages_pos (s : Screen) : 0 < s.pages := by
  unfold pages
  split
  · exact Nat.lt_of_lt_of_le Nat.one_pos (Nat.le_max_left ..)
  · exact Nat.one_pos

/-- Another reply leaves no fewer pages. -/
theorem pages_le_pages_offer (s : Screen) (text : String) : s.pages ≤ (s.offer text).pages := by
  unfold pages offer
  dsimp only
  split
  · refine max_le_max_left 1 (Nat.div_le_div_right ?_)
    rw [List.length_append]
    omega
  · exact Nat.le_refl 1

/-- A page other than the first begins before the last reply. -/
theorem lt_pages_iff (h : s.style = .chat (some size)) (hsize : 0 < size) :
    k < s.pages ↔ k = 0 ∨ k * size < s.prompt.options.length := by
  rw [pages_of_size h, lt_max_iff, Nat.lt_one_iff, Nat.lt_iff_add_one_le,
    Nat.le_div_iff_mul_le hsize, Nat.succ_mul]
  omega

end

/-! ### The page is one of the pages -/

/-- A chat screen with some replies on offer, and with one of its pages turned to. -/
structure Paged (pageSize : Option Nat) (texts : List String) (s : Screen) : Prop where
  style : s.style = .chat (pageSize.filter (0 < ·))
  options : s.prompt.options = texts
  page : s.page < s.pages

/-- A screen shows a part of the replies in one frame, each reply on a line of its own with the
number under which it was offered, counted from one. -/
structure Shows (texts : List String) (s : Screen) : Prop where
  slice : slice? texts s.window.1 s.stop = some s.window.2
  frame : s.display = [.chat (s.prompt.line :: (s.replies ++ s.footer))]
  lines : ∀ i : Nat, s.replies[i]? = if s.window.1 + i < s.stop then
      texts[s.window.1 + i]?.map fun text => toString (s.window.1 + i + 1) ++ ". " ++ text
    else none

namespace Paged

variable {s : Screen} {pageSize : Option Nat} {texts : List String} {size k : Nat}

theorem ofStyle (pageSize : Option Nat) : Paged pageSize [] (ofStyle (.chat pageSize)) :=
  ⟨rfl, rfl, pages_pos _⟩

/-- Turning to one of the pages. -/
theorem onPage (h : Paged pageSize texts s) (hk : k < s.pages) :
    Paged pageSize texts (s.onPage k) :=
  ⟨h.style, h.options, hk⟩

theorem style_eq_iff (h : Paged pageSize texts s) :
    s.style = .chat (some size) ↔ pageSize = some size ∧ 0 < size := by
  rw [h.style, Style.chat.injEq, Option.filter_eq_some_iff, decide_eq_true_eq]

theorem turned_lt (h : Paged pageSize texts s) (command : String) : s.turned command < s.pages := by
  have hpage := h.page
  unfold turned
  split <;> omega

/-- A screen with pages knows two commands, and shows the page that they turn to. -/
theorem navigate_eq (h : Paged pageSize texts s) (command : String) : s.navigate command =
    if (∃ size, pageSize = some size ∧ 0 < size) ∧ (command = "next" ∨ command = "previous") then
      (true, s.onPage (s.turned command), (s.onPage (s.turned command)).display)
    else (false, s, []) := by
  unfold navigate
  split
  · rename_i size hstyle
    have hpaging := h.style_eq_iff.1 hstyle
    have hpage := h.page
    have hnext : (if s.page + 1 < s.pages then s.page + 1 else s.page) =
        min (s.page + 1) (s.pages - 1) := by
      split <;> omega
    by_cases hn : command = "next"
    · rw [if_pos hn, hnext, if_pos ⟨⟨size, hpaging⟩, .inl hn⟩, turned, if_pos hn]
      rfl
    · rw [if_neg hn, turned, if_neg hn]
      by_cases hp : command = "previous"
      · rw [if_pos hp, if_pos ⟨⟨size, hpaging⟩, .inr hp⟩]
        rfl
      · rw [if_neg hp, if_neg fun hknown => hknown.2.elim hn hp]
  · rename_i hstyle
    rw [if_neg]
    rintro ⟨⟨size, hpaging⟩, -⟩
    exact hstyle size (h.style_eq_iff.2 hpaging)

/-- Whatever is called, the page stays one of the pages. -/
theorem call (h : Paged pageSize texts s) (c : Call) :
    Paged pageSize (c.offered texts) (s.call c).1 := by
  cases c with
  | say speaker text => exact ⟨h.style, h.options, h.page⟩
  | offer text =>
    exact ⟨h.style, congrArg (· ++ [text]) h.options,
      Nat.lt_of_lt_of_le h.page (pages_le_pages_offer s text)⟩
  | display => exact h
  | clear => exact ⟨h.style, rfl, pages_pos _⟩
  | close => exact h
  | navigate command =>
    show Paged pageSize texts (s.navigate command).2.1
    rw [h.navigate_eq]
    split
    · exact h.onPage (h.turned_lt command)
    · exact h

theorem callAll (h : Paged pageSize texts s) (calls : List Call) :
    Paged pageSize (calls.foldl Call.offered texts) (s.callAll calls).1 := by
  induction calls generalizing s texts with
  | nil => exact h
  | cons c rest ih => exact ih (h.call c)

/-! ### Nothing but replies is shown -/

theorem slice_eq (h : Paged pageSize texts s) :
    slice? texts s.window.1 s.stop = some s.window.2 := by
  rw [← h.options]
  cases hsize : pageSize.filter (0 < ·) with
  | none =>
    have hstyle : s.style = .chat none := h.style.trans (congrArg Style.chat hsize)
    rw [window, stop, hstyle]
    simp [slice?]
  | some size =>
    have hstyle : s.style = .chat (some size) := h.style.trans (congrArg Style.chat hsize)
    have hbegin : s.page * size ≤ s.prompt.options.length := by
      rcases (lt_pages_iff hstyle (h.style_eq_iff.1 hstyle).2).1 h.page with hzero | hlt
      · rw [hzero, Nat.zero_mul]
        exact Nat.zero_le _
      · exact hlt.le
    rw [window_of_size hstyle, stop_of_size hstyle, slice?, if_pos ⟨by omega, Nat.min_le_right ..⟩,
      ← List.take_eq_take_min, List.drop_take, Nat.add_sub_cancel_left]

theorem display_eq (h : Paged pageSize texts s) :
    s.display = [.chat (s.prompt.line :: (s.replies ++ s.footer))] := by
  unfold display
  rw [h.style]
  rfl

theorem getElem?_replies (h : Paged pageSize texts s) (i : Nat) :
    s.replies[i]? = if s.window.1 + i < s.stop then
      texts[s.window.1 + i]?.map fun text => toString (s.window.1 + i + 1) ++ ". " ++ text
    else none := by
  have hslice := h.slice_eq
  unfold slice? at hslice
  split at hslice
  · rw [replies, getElem?_numbered, ← Option.some.inj hslice, List.getElem?_drop,
      List.getElem?_take, show s.window.1 + 1 + i = s.window.1 + i + 1 by omega]
    split <;> rfl
  · cases hslice

theorem shows (h : Paged pageSize texts s) : Shows texts s :=
  ⟨h.slice_eq, h.display_eq, h.getElem?_replies⟩

/-- No position on a page is beyond twice the number of replies, except on a single page, where it
is not beyond the page size. -/
theorem lt_word (h : Paged pageSize texts s) (hsize : pageSize = some size) (hword : size < 2 ^ 64)
    (htexts : texts.length < 2 ^ 63) (hk : k < s.pages) : k * size + size < 2 ^ 64 := by
  rcases Nat.eq_zero_or_pos size with rfl | hpos
  · rw [Nat.mul_zero]
    exact hword
  · rcases (lt_pages_iff (h.style_eq_iff.2 ⟨hsize, hpos⟩) hpos).1 hk with rfl | hlt
    · rwa [Nat.zero_mul, Nat.zero_add]
    · rw [h.options] at hlt
      rcases Nat.eq_zero_or_pos k with rfl | hkpos
      · rwa [Nat.zero_mul, Nat.zero_add]
      · have hle : size ≤ k * size := Nat.le_mul_of_pos_left size hkpos
        omega

/-! ### All pages -/

/-- The first pages show the first replies. -/
theorem flatMap_replies (h : Paged pageSize texts s) (hstyle : s.style = .chat (some size))
    {m : Nat} (hm : m ≤ s.pages) : (List.range m).flatMap (fun k => (s.onPage k).replies) =
      numbered 1 (texts.take (m * size)) := by
  -- A page begins where the pages before it end.
  induction m with
  | zero => rw [Nat.zero_mul]; rfl
  | succ m ih =>
    have hbegin : m * size ≤ texts.length := by
      rcases (lt_pages_iff hstyle (h.style_eq_iff.1 hstyle).2).1 hm with rfl | hlt
      · rw [Nat.zero_mul]
        exact Nat.zero_le _
      · exact h.options ▸ hlt.le
    have hpage : (s.onPage m).replies =
        numbered (m * size + 1) ((texts.drop (m * size)).take size) := by
      rw [replies, window_of_size (s := s.onPage m) hstyle, ← h.options]
      rfl
    rw [List.range_succ, List.flatMap_append, ih (by omega), Nat.succ_mul, List.take_add,
      numbered_append, List.length_take_of_le hbegin, Nat.add_comm 1, List.flatMap_cons,
      List.flatMap_nil, List.append_nil, hpage]

theorem flatMap_pages (h : Paged pageSize texts s) (hstyle : s.style = .chat (some size)) :
    (List.range s.pages).flatMap (fun k => (s.onPage k).replies) = numbered 1 texts := by
  rw [h.flatMap_replies hstyle le_rfl, List.take_of_length_le]
  -- A page behind the last one would have nothing to show.
  have hlast :=
    mt (lt_pages_iff (k := s.pages) hstyle (h.style_eq_iff.1 hstyle).2).2 (Nat.lt_irrefl _)
  rw [h.options] at hlast
  omega

/-- Each reply is on one page. -/
theorem existsUnique_page (h : Paged pageSize texts s) (hstyle : s.style = .chat (some size))
    {i : Nat}
    (hi : i < texts.length) :
    ∃! k, k < s.pages ∧ (s.onPage k).window.1 ≤ i ∧ i < (s.onPage k).stop := by
  have hsize := (h.style_eq_iff.1 hstyle).2
  have hon : ∀ k, (s.onPage k).window.1 ≤ i ∧ i < (s.onPage k).stop ↔
      k * size ≤ i ∧ i < k * size + size := fun k => by
    rw [window_of_size (s := s.onPage k) hstyle, stop_of_size (s := s.onPage k) hstyle, lt_min_iff]
    exact and_congr_right fun _ => and_iff_left (h.options ▸ hi)
  simp only [hon]
  refine ⟨i / size, ⟨(lt_pages_iff hstyle hsize).2 (.inr ?_), Nat.div_mul_le_self i size,
    Nat.lt_div_mul_add hsize⟩, ?_⟩
  · rw [h.options]
    exact Nat.lt_of_le_of_lt (Nat.div_mul_le_self i size) hi
  · rintro k ⟨-, hbegin, hend⟩
    refine (Nat.div_eq_of_lt_le hbegin ?_).symm
    rwa [Nat.succ_mul]

/-! ### Back and on -/

theorem callAll_previous (h : Paged pageSize texts s) (hstyle : s.style = .chat (some size))
    (m : Nat) :
    s.callAll (List.replicate m (.navigate "previous")) = (s.onPage (s.page - m),
      (List.range m).flatMap fun i => (s.onPage (s.page - (i + 1))).display) := by
  induction m with
  | zero => rfl
  | succ m ih =>
    have hthere : Paged pageSize texts (s.onPage (s.page - m)) :=
      h.onPage (Nat.lt_of_le_of_lt (Nat.sub_le ..) h.page)
    have hturn : (s.onPage (s.page - m)).call (.navigate "previous") =
        (s.onPage (s.page - (m + 1)), (s.onPage (s.page - (m + 1))).display) := by
      show ((s.onPage (s.page - m)).navigate "previous").2 = _
      rw [hthere.navigate_eq, if_pos ⟨⟨size, h.style_eq_iff.1 hstyle⟩, .inr rfl⟩]
      rfl
    rw [List.replicate_succ', callAll_concat, ih, hturn, List.range_succ, List.flatMap_append,
      List.flatMap_cons, List.flatMap_nil, List.append_nil]

theorem callAll_next (h : Paged pageSize texts s) (hstyle : s.style = .chat (some size)) (n : Nat) :
    s.callAll (List.replicate n (.navigate "next")) = (s.onPage (min (s.page + n) (s.pages - 1)),
      (List.range n).flatMap fun i =>
        (s.onPage (min (s.page + (i + 1)) (s.pages - 1))).display) := by
  have hpage := h.page
  induction n with
  | zero =>
    have hstay : min (s.page + 0) (s.pages - 1) = s.page := by omega
    rw [hstay]
    rfl
  | succ n ih =>
    have hthere : Paged pageSize texts (s.onPage (min (s.page + n) (s.pages - 1))) :=
      h.onPage (by omega)
    have hturned : (s.onPage (min (s.page + n) (s.pages - 1))).turned "next" =
        min (s.page + (n + 1)) (s.pages - 1) := by
      show min (min (s.page + n) (s.pages - 1) + 1) (s.pages - 1) = _
      omega
    have hturn : (s.onPage (min (s.page + n) (s.pages - 1))).call (.navigate "next") =
        (s.onPage (min (s.page + (n + 1)) (s.pages - 1)),
          (s.onPage (min (s.page + (n + 1)) (s.pages - 1))).display) := by
      show ((s.onPage (min (s.page + n) (s.pages - 1))).navigate "next").2 = _
      rw [hthere.navigate_eq, if_pos ⟨⟨size, h.style_eq_iff.1 hstyle⟩, .inl rfl⟩, hturned]
      rfl
    rw [List.replicate_succ', callAll_concat, ih, hturn, List.range_succ, List.flatMap_append,
      List.flatMap_cons, List.flatMap_nil, List.append_nil]

end Paged

/-! ### Any calls -/

/-- **The pages keep step with the replies.**

Let a chat screen of any page size be called in any way, and let `texts` be the replies offered
since all were forgotten for the last time.  Then:

* the page turned to is one of the pages;
* each of the pages shows a part of the replies that is there, in one frame, and under the numbers
  that the replies have in `texts`;
* the positions of a page have 64 bits if the page size has, and the number of replies 63;
* a command is known if there are pages and it is `next` or `previous`, and then one of the pages is
  turned to and shown; otherwise nothing happens;
* where there are pages, `previous` as often as the page tells, or more often, and then `next`,
  leads from the first page on and stays at the last; the pages show the replies one after another,
  all of them and each on one page.
-/
theorem pages_in_step (pageSize : Option Nat) (calls : List Call) :
    let s := ((ofStyle (.chat pageSize)).callAll calls).1
    let texts := offered calls
    s.prompt.options = texts ∧ s.page < s.pages ∧
      (∀ k, k < s.pages → Shows texts (s.onPage k)) ∧
      (∀ size, pageSize = some size → size < 2 ^ 64 → texts.length < 2 ^ 63 →
        ∀ k, k < s.pages → k * size + size < 2 ^ 64) ∧
      (∀ command, s.turned command < s.pages ∧ s.navigate command =
        if (∃ size, pageSize = some size ∧ 0 < size) ∧
            (command = "next" ∨ command = "previous") then
          (true, s.onPage (s.turned command), (s.onPage (s.turned command)).display)
        else (false, s, [])) ∧
      ∀ size, pageSize = some size → 0 < size →
        (∀ m n, s.page ≤ m → s.callAll (List.replicate m (.navigate "previous") ++
            List.replicate n (.navigate "next")) = (s.onPage (min n (s.pages - 1)),
          ((List.range m).flatMap fun i => (s.onPage (s.page - (i + 1))).display) ++
            (List.range n).flatMap fun i => (s.onPage (min (i + 1) (s.pages - 1))).display)) ∧
        (List.range s.pages).flatMap (fun k => (s.onPage k).replies) = numbered 1 texts ∧
        ∀ i, i < texts.length →
          ∃! k, k < s.pages ∧ (s.onPage k).window.1 ≤ i ∧ i < (s.onPage k).stop := by
  intro s texts
  have h : Paged pageSize texts s := (Paged.ofStyle pageSize).callAll calls
  refine ⟨h.options, h.page, fun k hk => (h.onPage hk).shows,
    fun size hsize hword htexts k hk => h.lt_word hsize hword htexts hk,
    fun command => ⟨h.turned_lt command, h.navigate_eq command⟩, fun size hsize hpos => ?_⟩
  have hstyle : s.style = .chat (some size) := h.style_eq_iff.2 ⟨hsize, hpos⟩
  refine ⟨fun m n hm => ?_, h.flatMap_pages hstyle, fun i hi => h.existsUnique_page hstyle hi⟩
  have hfirst : Paged pageSize texts (s.onPage 0) := h.onPage (pages_pos s)
  have hstyle' : (s.onPage 0).style = .chat (some size) := hstyle
  rw [callAll_append, h.callAll_previous hstyle, Nat.sub_eq_zero_of_le hm,
    hfirst.callAll_next hstyle']
  simp only [onPage, Nat.zero_add]
  rfl

/-- Three replies are shown two to a page, the page is turned, and two more are offered. -/
def fiveReplies : List Call :=
  [.say "Cook" "What will it be?", .offer "Ale", .offer "Bread", .offer "Cheese", .display,
    .navigate "next", .offer "Dates", .offer "Eggs"]

/-- Going back once and then on shows all of the five replies, the fourth on the second page. -/
theorem pages_in_step_of_five :
    let s := ((ofStyle (.chat (some 2))).callAll fiveReplies).1
    s.page = 1 ∧ s.pages = 3 ∧ Shows ["Ale", "Bread", "Cheese", "Dates", "Eggs"] (s.onPage 2) ∧
      (s.navigate "next").2.2 = [.chat ["Cook: What will it be?", "5. Eggs", "(page 3/3)"]] ∧
      2 * 2 + 2 < 2 ^ 64 ∧ (∃! k, k < 3 ∧ (s.onPage k).window.1 ≤ 3 ∧ 3 < (s.onPage k).stop) ∧
      (s.callAll [.navigate "previous", .navigate "next", .navigate "next"]).2 =
        [.chat ["Cook: What will it be?", "1. Ale", "2. Bread", "(page 1/3)"],
          .chat ["Cook: What will it be?", "3. Cheese", "4. Dates", "(page 2/3)"],
          .chat ["Cook: What will it be?", "5. Eggs", "(page 3/3)"]] := by
  intro s
  obtain ⟨-, -, hshows, hword, hnavigate, hpaging⟩ := pages_in_step (some 2) fiveReplies
  obtain ⟨hround, -, hunique⟩ := hpaging 2 rfl (by decide)
  have hnext : (s.navigate "next").2.2 = (s.onPage 2).display := by
    rw [(hnavigate "next").2, if_pos ⟨⟨2, rfl, by decide⟩, .inl rfl⟩]
    rfl
  exact ⟨by decide, by decide, hshows 2 (by decide), hnext.trans (by decide),
    hword 2 rfl (by decide) (by decide) 2 (by decide), hunique 3 (by decide),
    (congrArg Prod.snd (hround 1 2 (by decide))).trans (by decide)⟩

end Questbook.Screen
