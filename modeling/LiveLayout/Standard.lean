import LiveLayout.App
/-!
The brick types that every app of the command line knows.
-/
namespace LiveLayout.App

def standardElements : List (String × String) :=
  [("Box", "box"), ("Row", "row"), ("Column", "column"), ("Text", "text"), ("Heading", "heading"),
    ("Image", "image"), ("Button", "button"), ("Link", "link"), ("List", "list"),
    ("Spinner", "spinner"), ("Form", "form"), ("Input", "input"), ("Checkbox", "checkbox"),
    ("Select", "select")]

/-- Elements, a card with header and footer, and the parts of forms. -/
def registerStandard : Engine (Except AppError Unit) := do
  match ← registerElements standardElements with
  | .error e => return .error e
  | .ok _ =>
    let changed := HookArgument.make 0 (some "target.value")
    let steps : List (Engine (Except AppError Unit)) :=
      [register "Card" (.recipe .card) ["header", "footer"],
        changeRegistry (·.registerContainer "Form" ["onSubmit"]),
        changeRegistry (·.registerField "Input" [("onChange", changed)]),
        changeRegistry (·.registerField "Select" [("onChange", changed)]),
        changeRegistry (·.registerField "Checkbox"
          [("onChange", HookArgument.make 0 (some "target.checked"))])]
    steps.foldlM (fun result step => do
      match result with
      | .ok _ => step
      | .error e => return .error e) (.ok ())

end LiveLayout.App
