/-!
What every error of the library can tell: a tag by which programs tell errors apart, and a message for
people.
-/
namespace PushHub

class Failure (ε : Type) where
  tag : ε → String
  message : ε → String

end PushHub
