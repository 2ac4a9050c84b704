import EnumCatalog.Mapper
import EnumCatalog.Model

/-!
# Registering a list of enums

The generated code consists of two functions that go through the same enums in the same order: one
maps each of them, the other declares each of them under the name its declaration asks for. Seen
from here the two functions are a list of enum types, and what they do to a mapper and to a model is
a fold over it.

`PetShop` is a small application with such a list, used as the running example.
-/

set_option autoImplicit false

namespace EnumCatalog

/-- Maps every enum of the list. -/
def Mapper.mapAll (m : Mapper) (enums : List EnumType) (naming : Option Naming) : Mapper :=
  enums.foldl (fun m E => m.mapEnum E naming) m

/-- Declares every enum of the list, under the database name it asks for if it asks for one. -/
def Model.declareAll (m : Model) (enums : List EnumType) (schema : Option String)
    (naming : Option Naming) : Model :=
  enums.foldl (fun m E => m.declareEnum E schema E.aliasName naming) m

namespace PetShop

/-- The animals for sale. -/
def animals : EnumType :=
  .ofVariants "pet_shop::pets::Animals" "Animals" ["Cat", "Dog", "Parrot", "Tardigrade"] none

/-- What customers pay in. -/
def currency : EnumType :=
  .ofVariants "pet_shop::shop::Currency" "Currency" ["Eur", "Usd"] (some "currency_code")

/-- How far an order has come. -/
def orderStatus : EnumType :=
  .ofVariants "pet_shop::shop::orders::OrderStatus" "OrderStatus"
    ["Pending", "InTransit", "Delivered"] (some "order_state")

/-- The enums of the application in the order of their files. -/
def enums : List EnumType := [animals, currency, orderStatus]

/-- A mapper of the application's enums. -/
def mapper : Mapper := Mapper.empty.mapAll enums none

/-- The statements that create the application's types in a schema. -/
def ddl (schema : Option String) : List String :=
  (Model.empty.declareAll enums schema none).createStatements

end PetShop

end EnumCatalog
